import Mathlib.Logic.Relation
import RuleAudit.Proofs.Fixing.Cleanup
import RuleAudit.Proofs.Fixing.Verdicts

/-!
# Who owns the copies

A verification of fixes holds a handle for each copy, and dropping a handle removes its copy. The handles
are gathered while copies are made, kept while the engine is asked, and dropped one after the other while
copies are compared, or all at once when the verification ends early. Here it is told one step at a time with
the handles that it holds. Wherever it ends, what it holds is all that is left to remove.
-/

namespace RuleAudit

namespace World

/-! ## Creating and filling -/

/-- An empty file under a fresh path. -/
def createCopy (w : World) (copy : Path) : World :=
  match w.resolve false copy with
  | .ok (.free place) => w.put place (.file [] false)
  | _ => w

/-- The file under a path with other contents. -/
def fillCopy (w : World) (copy : Path) (contents : List UInt8 × Bool) : World :=
  match w.resolve false copy with
  | .ok (.taken place (.file ..)) => w.put place (.file contents.1 contents.2)
  | _ => w

variable {w : World} {cc : CopiedCase} {place : Place}

theorem createCopy_of_free (hfree : w.resolve false cc.copy = .ok (.free place)) :
    w.createCopy cc.copy = w.put place (.file [] false) := by
  rw [createCopy, hfree]

/-- A copy that has been created and filled is a copy. -/
theorem fillCopy_createCopy (hfree : w.resolve false cc.copy = .ok (.free place))
    (contents : List UInt8 × Bool) : (w.createCopy cc.copy).fillCopy cc.copy contents =
      w.put place (.file contents.1 contents.2) := by
  obtain ⟨-, htaken⟩ := resolve_put_of_free hfree [] false
  rw [createCopy_of_free hfree, fillCopy, htaken]
  exact World.ext (OrderedMap.insert_insert _ _ _ _) rfl rfl

/-- A copy that has been created and is dropped again leaves no trace. -/
theorem dropCopy_createCopy (hfree : w.resolve false cc.copy = .ok (.free place)) :
    (w.createCopy cc.copy).dropCopy cc = w := by
  obtain ⟨-, htaken⟩ := resolve_put_of_free hfree [] false
  have hnone := node?_of_free hfree
  rw [Tree.node?_of_ne_root _ (Tree.Grows.ne_root hnone)] at hnone
  rw [createCopy_of_free hfree, dropCopy, remove, htaken]
  exact World.ext (OrderedMap.erase_insert hnone _) rfl rfl

/-- Copies are made for some cases and then for others. -/
theorem copyCases_append {before : List GoldenCase} {held : List CopiedCase} {first w : World}
    (h : first.copyCases before = (held, none, w)) (todo : List GoldenCase) :
    first.copyCases (before ++ todo) =
      (held ++ (w.copyCases todo).1, (w.copyCases todo).2.1, (w.copyCases todo).2.2) := by
  induction before generalizing first held with
  | nil =>
    cases h
    rfl
  | cons case rest ih =>
    obtain ⟨e, -, -, hnone, -⟩ | ⟨copy, next, more, hone, hmore, rfl⟩ := copyCases_cons_cases h
    · cases hnone
    · rw [List.cons_append, copyCases]
      simp only [hone, ih hmore, List.cons_append]

end World

/-! ## Stages -/

/-- What a verification does next, with the handles that it holds. -/
inductive Stage where
  | copying (todo : List GoldenCase) (held : List CopiedCase)
  | filling (cc : CopiedCase) (source : Except Cause (List UInt8 × Bool)) (todo : List GoldenCase)
      (held : List CopiedCase)
  | comparing (runs : OrderedMap Path Outcome) (done : List GoldenVerdict) (held : List CopiedCase)
  | leaving (result : Except RunError Verified) (held : List CopiedCase)

namespace Stage

/-- The handles that are held, in the order in which they are dropped. -/
def held : Stage → List CopiedCase
  | .copying _ held => held
  | .filling cc _ _ held => cc :: held
  | .comparing _ _ held => held
  | .leaving _ held => held

/-- The engine has not been asked, and it may still be. -/
def IsCopying : Stage → Prop
  | .copying .. | .filling .. => True
  | .comparing .. | .leaving .. => False

variable (engine : Engine) (schedule : Schedule) (options : Options)

/-- One step. What there is to copy is read before the copy is there: its path is fresh, so no other one
leads to it. -/
def step : Stage × Session → Option (Stage × Session)
  | (.copying [] held, s) =>
    let (runs, s) := s.invokeAll engine schedule (fixTasks held options)
    some (.comparing runs [] held, s)
  | (.copying (case :: todo) held, s) =>
    match s.world.freshPath (World.copyEnding case.target) with
    | .error cause => some (.leaving (.error (.file s.world.scratch.path cause)) held, s)
    | .ok copy =>
      some (.filling ⟨case, copy⟩ (s.world.contents case.target) todo held,
        { s with world := s.world.createCopy copy })
  | (.filling cc (.ok contents) todo held, s) =>
    some (.copying todo (held ++ [cc]), { s with world := s.world.fillCopy cc.copy contents })
  | (.filling cc (.error cause) _ held, s) =>
    some (.leaving (.error (.file cc.case.target cause)) (cc :: held), s)
  | (.comparing runs done [], s) => some (.leaving (.ok (done, runs)) [], s)
  | (.comparing runs done (cc :: held), s) =>
    match s.world.compareFixed cc.copy cc.case.golden with
    | .error e => some (.leaving (.error e) (cc :: held), s)
    | .ok diff =>
      some (.comparing runs (done ++ [⟨cc.case, diff⟩]) held,
        { s with world := s.world.dropCopy cc })
  | (.leaving result (cc :: held), s) =>
    some (.leaving result held, { s with world := s.world.dropCopy cc })
  | (.leaving _ [], _) => none

/-- Any number of steps. -/
abbrev Steps : Stage × Session → Stage × Session → Prop :=
  Relation.ReflTransGen fun now next => step engine schedule options now = some next

/-! ## What holds at each stage -/

/-- What has come of some cases so far: first the copies that are held, and nothing else that is new; later
the outcome of the verification is what is still to come. -/
def Sound (first : Session) (cases : List GoldenCase) : Stage × Session → Prop
  | (.copying todo held, s) => s.asked = first.asked ∧ ∃ before, cases = before ++ todo ∧
      first.world.copyCases before = (held, none, s.world)
  | (.filling cc source todo held, s) => s.asked = first.asked ∧ ∃ before w,
      cases = before ++ cc.case :: todo ∧ first.world.copyCases before = (held, none, w) ∧
      w.freshPath (World.copyEnding cc.case.target) = .ok cc.copy ∧
      source = w.contents cc.case.target ∧ s.world = w.createCopy cc.copy
  | (.comparing runs done held, s) => first.checkFixes engine schedule cases options =
      ((s.world.compareCopies held).map fun verdicts => (done ++ verdicts, runs),
        { s with world := s.world.dropCopies held })
  | (.leaving result held, s) => first.checkFixes engine schedule cases options =
      (result, { s with world := s.world.dropCopies held })

variable {engine schedule options} {first : Session} {cases : List GoldenCase}
  {now next : Stage × Session}

/-- If a copy cannot be made the verification ends with the copies that were made before. -/
theorem checkFixes_of_unmade {before todo : List GoldenCase} {held : List CopiedCase}
    {case : GoldenCase} {w : World} {e : RunError}
    (h : first.world.copyCases before = (held, none, w)) (he : w.copyToScratch case.target = .error e) :
    first.checkFixes engine schedule (before ++ case :: todo) options =
      (.error e, { first with world := w.dropCopies held }) := by
  have hcopies := World.copyCases_append h (case :: todo)
  rw [World.copyCases, he] at hcopies
  rw [Session.checkFixes, hcopies, List.append_nil]

/-- A step while copies are made. -/
theorem Sound.step_copying {todo : List GoldenCase} {held : List CopiedCase} {s : Session}
    (h : Sound engine schedule options first cases (.copying todo held, s))
    (hstep : Stage.step engine schedule options (.copying todo held, s) = some next) :
    Sound engine schedule options first cases next := by
  obtain ⟨hasked, before, rfl, hmade⟩ := h
  cases todo with
  | nil =>
    obtain rfl : (comparing (s.invokeAll engine schedule (fixTasks held options)).1 [] held,
      (s.invokeAll engine schedule (fixTasks held options)).2) = next := Option.some.inj hstep
    have hstart : { first with world := s.world } = s := by
      rw [← hasked]
    rw [Sound, List.append_nil, Session.checkFixes, hmade]
    simp only [hstart, List.nil_append]
  | cons case todo =>
    rw [Stage.step] at hstep
    cases hpath : s.world.freshPath (World.copyEnding case.target) with
    | error cause =>
      rw [hpath] at hstep
      obtain rfl := Option.some.inj hstep
      have hunmade : s.world.copyToScratch case.target = .error (.file s.world.scratch.path cause) := by
        rw [World.copyToScratch, hpath]
      rw [Sound, checkFixes_of_unmade hmade hunmade, ← hasked]
    | ok copy =>
      rw [hpath] at hstep
      obtain rfl := Option.some.inj hstep
      exact ⟨hasked, before, s.world, rfl, hmade, hpath, rfl, rfl⟩

/-- A step while a copy is filled. -/
theorem Sound.step_filling {cc : CopiedCase} {source : Except Cause (List UInt8 × Bool)}
    {todo : List GoldenCase} {held : List CopiedCase} {s : Session}
    (h : Sound engine schedule options first cases (.filling cc source todo held, s))
    (hstep : Stage.step engine schedule options (.filling cc source todo held, s) = some next) :
    Sound engine schedule options first cases next := by
  obtain ⟨hasked, before, w, rfl, hmade, hpath, hsource, hcreated⟩ := h
  obtain ⟨place, hfree⟩ := World.freshPath_free hpath
  have hcopy := World.copyToScratch_of_free hpath hfree
  rw [← hsource] at hcopy
  cases source with
  | ok contents =>
    obtain rfl := Option.some.inj hstep
    refine ⟨hasked, before ++ [cc.case], by simp, ?_⟩
    have hfilled := World.fillCopy_createCopy hfree contents
    rw [World.copyCases_append hmade, hcreated, hfilled, World.copyCases, hcopy]
    rfl
  | error cause =>
    obtain rfl := Option.some.inj hstep
    have hdropped : s.world.dropCopies (cc :: held) = w.dropCopies held := by
      rw [hcreated, World.dropCopies, List.foldl_cons, World.dropCopy_createCopy hfree,
        ← World.dropCopies]
    rw [Sound, checkFixes_of_unmade hmade hcopy, hdropped, ← hasked]

/-- A step while copies are compared. -/
theorem Sound.step_comparing {runs : OrderedMap Path Outcome} {done : List GoldenVerdict}
    {held : List CopiedCase} {s : Session}
    (h : Sound engine schedule options first cases (.comparing runs done held, s))
    (hstep : Stage.step engine schedule options (.comparing runs done held, s) = some next) :
    Sound engine schedule options first cases next := by
  rw [Sound] at h
  cases held with
  | nil =>
    obtain rfl := Option.some.inj hstep
    rw [Sound, h, World.compareCopies, Except.map, List.append_nil]
  | cons cc held =>
    rw [World.compareCopies] at h
    rw [Stage.step] at hstep
    cases hdiff : s.world.compareFixed cc.copy cc.case.golden with
    | error e =>
      rw [hdiff] at h hstep
      obtain rfl := Option.some.inj hstep
      exact h
    | ok diff =>
      rw [hdiff] at h hstep
      obtain rfl := Option.some.inj hstep
      rw [Sound, h]
      dsimp only
      cases (s.world.dropCopy cc).compareCopies held with
      | error e => rfl
      | ok verdicts => simp [Except.map, World.dropCopies]

/-- **A step keeps to the outcome** of the verification. -/
theorem Sound.step (h : Sound engine schedule options first cases now)
    (hstep : Stage.step engine schedule options now = some next) :
    Sound engine schedule options first cases next := by
  obtain ⟨stage, s⟩ := now
  cases stage with
  | copying todo held => exact h.step_copying hstep
  | filling cc source todo held => exact h.step_filling hstep
  | comparing runs done held => exact h.step_comparing hstep
  | leaving result held =>
    cases held with
    | nil => cases hstep
    | cons cc held =>
      obtain rfl := Option.some.inj hstep
      exact h

theorem Sound.steps (h : Sound engine schedule options first cases now)
    (hsteps : Steps engine schedule options now next) :
    Sound engine schedule options first cases next := by
  induction hsteps with
  | refl => exact h
  | tail _ hstep ih => exact ih.step hstep

/-- A verification starts without copies. -/
theorem sound_start (first : Session) (cases : List GoldenCase) :
    Sound engine schedule options first cases (.copying cases [], first) :=
  ⟨rfl, [], rfl, rfl⟩

/-- Until the engine is asked, the copies whose handles are held are all that is new. -/
theorem Sound.dropCopies_eq_first (h : Sound engine schedule options first cases now)
    (hcopying : now.1.IsCopying) : now.2.world.dropCopies now.1.held = first.world := by
  obtain ⟨stage, s⟩ := now
  cases stage with
  | copying todo held =>
    obtain ⟨-, before, -, hmade⟩ := h
    exact World.dropCopies_copyCases hmade
  | filling cc source todo held =>
    obtain ⟨-, before, w, -, hmade, hpath, -, hcreated⟩ := h
    obtain ⟨place, hfree⟩ := World.freshPath_free hpath
    dsimp only at hcreated ⊢
    rw [hcreated, Stage.held, World.dropCopies, List.foldl_cons, World.dropCopy_createCopy hfree]
    exact World.dropCopies_copyCases hmade
  | comparing runs done held => exact hcopying.elim
  | leaving result held => exact hcopying.elim

/-- After that, the handles that are held are all that is left to drop. -/
theorem Sound.dropCopies_eq_last (h : Sound engine schedule options first cases now)
    (hcopying : ¬ now.1.IsCopying) : now.2.world.dropCopies now.1.held =
      (first.checkFixes engine schedule cases options).2.world := by
  obtain ⟨stage, s⟩ := now
  cases stage with
  | copying todo held => exact absurd trivial hcopying
  | filling cc source todo held => exact absurd trivial hcopying
  | comparing runs done held =>
    rw [Sound] at h
    rw [h, Stage.held]
  | leaving result held =>
    rw [Sound] at h
    rw [h, Stage.held]

/-! ## Ending -/

/-- How many steps there are to come, at most. -/
def weight : Stage → Nat
  | .copying todo held => 3 * todo.length + held.length + 2
  | .filling _ _ todo held => 3 * todo.length + held.length + 4
  | .comparing _ _ held => held.length + 1
  | .leaving _ held => held.length

theorem weight_step (hstep : Stage.step engine schedule options now = some next) :
    next.1.weight < now.1.weight := by
  obtain ⟨stage, s⟩ := now
  cases stage with
  | copying todo held =>
    cases todo with
    | nil =>
      obtain rfl := Option.some.inj hstep
      simp [weight]
    | cons case todo =>
      rw [Stage.step] at hstep
      split at hstep <;>
      · obtain rfl := Option.some.inj hstep
        simp only [weight, List.length_cons]
        omega
  | filling cc source todo held =>
    cases source <;>
    · obtain rfl := Option.some.inj hstep
      simp only [weight, List.length_cons, List.length_append, List.length_nil]
      omega
  | comparing runs done held =>
    cases held with
    | nil =>
      obtain rfl := Option.some.inj hstep
      simp [weight]
    | cons cc held =>
      rw [Stage.step] at hstep
      split at hstep <;>
      · obtain rfl := Option.some.inj hstep
        simp [weight]
  | leaving result held =>
    cases held with
    | nil => cases hstep
    | cons cc held =>
      obtain rfl := Option.some.inj hstep
      simp [weight]

/-- There is no further step only when there is a result and nothing is held. -/
theorem exists_leaving_of_step_eq_none (h : Stage.step engine schedule options now = none) :
    ∃ result, now.1 = .leaving result [] := by
  obtain ⟨stage, s⟩ := now
  cases stage with
  | copying todo held =>
    cases todo with
    | nil => cases h
    | cons case todo =>
      rw [Stage.step] at h
      split at h <;> cases h
  | filling cc source todo held => cases source <;> cases h
  | comparing runs done held =>
    cases held with
    | nil => cases h
    | cons cc held =>
      rw [Stage.step] at h
      split at h <;> cases h
  | leaving result held =>
    cases held with
    | nil => exact ⟨result, rfl⟩
    | cons cc held => cases h

/-- **Every verification ends**, with a result and without handles. -/
theorem exists_steps_leaving (engine : Engine) (schedule : Schedule) (options : Options)
    (now : Stage × Session) : ∃ result s, Steps engine schedule options now (.leaving result [], s) := by
  induction hweight : now.1.weight using Nat.strong_induction_on generalizing now with
  | _ n ih =>
    cases hstep : Stage.step engine schedule options now with
    | none =>
      obtain ⟨result, hstage⟩ := exists_leaving_of_step_eq_none hstep
      refine ⟨result, now.2, ?_⟩
      rw [← hstage]
    | some next =>
      obtain ⟨result, s, hsteps⟩ := ih _ (hweight ▸ weight_step hstep) next rfl
      exact ⟨result, s, .head hstep hsteps⟩

/-- **A verification by handles** comes to the same end as one that drops all copies when it is over. -/
theorem steps_checkFixes (engine : Engine) (schedule : Schedule) (options : Options) (first : Session)
    (cases : List GoldenCase) : Steps engine schedule options (.copying cases [], first)
      (.leaving (first.checkFixes engine schedule cases options).1 [],
        (first.checkFixes engine schedule cases options).2) := by
  obtain ⟨result, s, hsteps⟩ :=
    exists_steps_leaving engine schedule options (.copying cases [], first)
  have hsound := (sound_start first cases).steps hsteps
  rw [Sound, World.dropCopies, List.foldl_nil] at hsound
  rwa [hsound]

end Stage

/-! ## What is left behind -/

/-- What a verification leaves behind, whatever the engine does and wherever the verification ends. -/
structure CleansUp (engine : Engine) (schedule : Schedule) (options : Options)
    (cases : List GoldenCase) (first : Session) (result : Except RunError Verified)
    (last : Session) : Prop where
  ends : Stage.Steps engine schedule options (.copying cases [], first) (.leaving result [], last)
  /-- At each step until the engine is asked, dropping what is held leaves the files as they were. -/
  untouched : ∀ now, Stage.Steps engine schedule options (.copying cases [], first) now →
    now.1.IsCopying → now.2.world.dropCopies now.1.held = first.world
  settled : ∀ now, Stage.Steps engine schedule options (.copying cases [], first) now →
    ¬ now.1.IsCopying → now.2.world.dropCopies now.1.held = last.world
  unmade : ∀ e, (first.world.copyCases cases).2.1 = some e → result = .error e ∧ last = first
  added : ∀ q, (first.world.copyCases cases).2.2.tree.node? q = first.world.tree.node? q ∨
    first.world.tree.node? q = none ∧ ∃ cc ∈ (first.world.copyCases cases).1,
      first.world.resolve false cc.copy = .ok (.free q)
  gone : ∀ cc ∈ (first.world.copyCases cases).1, ∀ place node,
    last.world.resolve false cc.copy = .ok (.taken place node) → node = .directory
  /-- Of what the engine left, only files and links that paths of copies led to have been removed. -/
  removed : (first.world.copyCases cases).2.1 = none → ∀ q,
    last.world.tree.node? q = (first.world.fixing engine schedule options cases).world.tree.node? q ∨
      last.world.tree.node? q = none ∧ ∃ cc ∈ (first.world.copyCases cases).1,
        ∃ node, node ≠ .directory ∧ (first.world.fixing engine schedule options cases).world.resolve
          false cc.copy = .ok (.taken q node)
  restored : engine.ChangesOnlyTargets → first.world.Keeps last.world ∧
    ∀ cc ∈ (first.world.copyCases cases).1, ∀ place,
      first.world.resolve false cc.copy = .ok (.free place) →
      ∀ node, last.world.tree.node? place = some node → node = .directory

namespace Session

variable {s : Session} {engine : Engine} {schedule : Schedule} {options : Options}
  {cases : List GoldenCase}

/-- If a copy cannot be made, nothing has happened. -/
theorem checkFixes_of_failure {e : RunError} (h : (s.world.copyCases cases).2.1 = some e) :
    s.checkFixes engine schedule cases options = (.error e, s) := by
  have hdropped := World.dropCopies_copyCases (show s.world.copyCases cases = (_, _, _) from rfl)
  rw [checkFixes_eq, h]
  dsimp only
  rw [World.copies_fixing, hdropped]

theorem world_checkFixes (h : (s.world.copyCases cases).2.1 = none) :
    (s.checkFixes engine schedule cases options).2.world =
      (s.world.fixing engine schedule options cases).world.dropCopies (s.world.copyCases cases).1 := by
  rw [checkFixes_eq, h]
  dsimp only
  rw [World.copies_fixing]

/-- The path of a copy leads to no file or link in the end. -/
theorem directory_of_checkFixes {cc : CopiedCase} (hcc : cc ∈ (s.world.copyCases cases).1)
    {place : Place} {node : Node} (h : (s.checkFixes engine schedule cases options).2.world.resolve
      false cc.copy = .ok (.taken place node)) : node = .directory := by
  cases hmade : (s.world.copyCases cases).2.1 with
  | some e =>
    obtain ⟨free, hfree⟩ := World.exists_place_of_copy hcc
    rw [checkFixes_of_failure hmade, hfree] at h
    cases h
  | none =>
    rw [world_checkFixes hmade] at h
    exact World.directory_of_dropCopies hcc h

end Session

/-- **No copy is left behind** by a verification, and it removes nothing else. -/
theorem cleansUp_checkFixes (engine : Engine) (schedule : Schedule) (options : Options)
    (cases : List GoldenCase) (first : Session) : CleansUp engine schedule options cases first
      (first.checkFixes engine schedule cases options).1
      (first.checkFixes engine schedule cases options).2 where
  ends := Stage.steps_checkFixes engine schedule options first cases
  untouched _ hsteps := ((Stage.sound_start first cases).steps hsteps).dropCopies_eq_first
  settled _ hsteps := ((Stage.sound_start first cases).steps hsteps).dropCopies_eq_last
  unmade e he := Prod.mk.inj (Session.checkFixes_of_failure he)
  added := World.node?_copyCases (show first.world.copyCases cases = (_, _, _) from rfl)
  gone cc hcc place node := Session.directory_of_checkFixes hcc
  removed hmade q := by
    rw [Session.world_checkFixes hmade]
    exact World.node?_dropCopies _ _ q
  restored hengine := by
    have hkeeps : first.world.Keeps (first.checkFixes engine schedule cases options).2.world :=
      Session.keeps_of_checkFixes hengine (Prod.ext rfl rfl)
    refine ⟨hkeeps, fun cc hcc place hfree node hnode => ?_⟩
    have hstands := hkeeps.resolve_free hfree
    rw [Tree.spotAt, hnode] at hstands
    exact Session.directory_of_checkFixes hcc hstands

end RuleAudit
