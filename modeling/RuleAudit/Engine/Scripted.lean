import RuleAudit.Engine.Basic

/-!
# Scripted engines

An engine that does what a list of rules says. It stands in for a real one where the behaviour of a run is to be
fixed beforehand: the driver of the tests answers with it, and no other definition uses it.
-/

namespace RuleAudit.Script

/-- The end of an invocation that does not give the findings collected so far. -/
inductive Ending where
  | findings (raw : Json)
  | output (text : Text)
  | error (e : EngineError)
  | crash (reason : Option Text)

/-- What to do in one invocation, in the order of the fields. -/
structure Behaviour where
  results : List Finding
  grep : List (Text × Text)
  replace : List (Text × Text)
  delete : Bool
  unlink : List Path
  ending : Ending

/-- The invocations that a behaviour is for; what is not given fits all. -/
structure Entry where
  config : Option Text
  fixing : Option Bool
  behaviour : Behaviour

/-- Whether an entry is for an invocation. -/
def Entry.fits (e : Entry) (i : Invocation) : Bool :=
  e.config.all (· == i.config.display) && e.fixing.all (· == i.options.autofix)

/-- The text of a file; one that cannot be read has none. -/
def readAny (w : World) (p : Path) : Text := Utf8.decodeLossy ((w.read p).toOption.getD [])

/-- The findings in the lines of a target, the first of which has a number. -/
def grepLines (rules : List (Text × Text)) (target : Path) : Nat → List Text → List Finding
  | _, [] => []
  | n, line :: rest =>
    ((rules.filter fun r => Text.hasInfix r.2 line).map fun r => ⟨r.1, target, n⟩) ++
      grepLines rules target (n + 1) rest

/-- A target with the replacements made, if they change it. -/
def replaceIn (b : Behaviour) (target : Path) (w : World) : World :=
  let old := readAny w target
  let new := b.replace.foldl (fun s r => Text.replaceAll r.1 r.2 s) old
  if new = old then w else (w.write target (Utf8.encode new)).toOption.getD w

/-- A target searched and, when fixing, changed and removed. -/
def treat (b : Behaviour) (fixing : Bool) (w : World) (target : Path) : List Finding × World :=
  let found := grepLines b.grep target 1 (Text.splitOn '\n' (readAny w target))
  if fixing then
    let w := replaceIn b target w
    (found, if b.delete then (w.remove target).toOption.getD w else w)
  else (found, w)

/-- All targets treated, one after the other. -/
def treatAll (b : Behaviour) (fixing : Bool) : World → List Path → List Finding × World
  | w, [] => ([], w)
  | w, target :: rest =>
    let (found, w) := treat b fixing w target
    let (more, w) := treatAll b fixing w rest
    (found ++ more, w)

/-- The reply at the end of an invocation. -/
def Ending.reply (found : List Finding) : Ending → Reply
  | .findings raw => .found ⟨found, raw⟩
  | .error e => .failed e
  | .crash reason => .crashed reason
  | .output text =>
    match Json.read text with
    | .error e => .failed (.unreadable e)
    | .ok raw =>
      match Scan.ofDocument raw with
      | .ok scan => .found scan
      | .error fault => .failed (.malformed fault.message)

/-- A behaviour carried out. -/
def Behaviour.run (b : Behaviour) (i : Invocation) (w : World) : Reply × World :=
  let (found, w) := treatAll b i.options.autofix w i.targets
  let w := b.unlink.foldl (fun w p => (w.remove p).toOption.getD w) w
  (b.ending.reply (b.results ++ found), w)

/-- The engine of a list of entries. Without one that fits it finds nothing. -/
def engine (entries : List Entry) : Engine := fun i w =>
  match entries.find? fun e => e.fits i with
  | some e => e.behaviour.run i w
  | none => (.found .empty, w)

theorem world_treatAll_false (b : Behaviour) (w : World) (targets : List Path) :
    (treatAll b false w targets).2 = w := by
  induction targets with
  | nil => rfl
  | cons target rest ih => exact ih

/-- An engine that is not to fix and has nothing to remove leaves all files as they are. -/
theorem world_engine {entries : List Entry} (h : ∀ e ∈ entries, e.behaviour.unlink = []) {i : Invocation}
    (hi : i.options.autofix = false) (w : World) : (engine entries i w).2 = w := by
  rw [engine]
  split
  next e he =>
    rw [Behaviour.run, hi, h e (List.mem_of_find?_eq_some he)]
    exact world_treatAll_false e.behaviour w i.targets
  next => rfl

end RuleAudit.Script
