import RuleAudit.Engine.Pool
import RuleAudit.Fixing.Comparison
import RuleAudit.Fixing.Scratch

/-!
# Verifying fixes

The target of each case is copied, the engine fixes the copies of each config in one invocation,
and each copy is compared with the golden file of its case. The copies are gone afterwards, whatever
happened.
-/

namespace RuleAudit

/-- A case and the copy of its target. -/
structure CopiedCase where
  case : GoldenCase
  copy : Path
  deriving DecidableEq, Repr

namespace World

/-- Copies made one after the other, up to the first that cannot be made. -/
def copyCases : List GoldenCase → World → List CopiedCase × Option RunError × World
  | [], w => ([], none, w)
  | c :: rest, w =>
    match w.copyToScratch c.target with
    | .error e => ([], some e, w)
    | .ok (copy, w) =>
      let (more, failure, w) := copyCases rest w
      (⟨c, copy⟩ :: more, failure, w)

/-- The world without a copy. One that is gone already is left. -/
def dropCopy (w : World) (c : CopiedCase) : World := (w.remove c.copy).toOption.getD w

/-- The world without some copies. -/
def dropCopies (copies : List CopiedCase) (w : World) : World := copies.foldl dropCopy w

/-- The outcomes of some cases, up to the first comparison that cannot be made. A copy is dropped as
soon as it has been compared, so it is gone when the next one is read. -/
def compareCopies (w : World) : List CopiedCase → Except RunError (List GoldenVerdict)
  | [] => .ok []
  | c :: rest =>
    match w.compareFixed c.copy c.case.golden with
    | .error e => .error e
    | .ok diff => (compareCopies (w.dropCopy c) rest).map (⟨c.case, diff⟩ :: ·)

end World

/-- The copies of each config, in the order of the cases. -/
def copiesByConfig (copies : List CopiedCase) : OrderedMap Path (List Path) :=
  copies.foldl (fun m c => m.alter c.case.config fun old => old.getD [] ++ [c.copy]) .empty

/-- The invocations that fix the copies: one for each config. -/
def fixTasks (copies : List CopiedCase) (options : Options) : List Invocation :=
  (copiesByConfig copies).entries.map fun (config, targets) => ⟨config, targets, options.fixing⟩

/-- The outcomes of the cases and of the invocations. -/
abbrev Verified := List GoldenVerdict × OrderedMap Path Outcome

/-- Fixes verified on copies of the targets. -/
def Session.checkFixes (s : Session) (engine : Engine) (schedule : Schedule)
    (cases : List GoldenCase) (options : Options) : Except RunError Verified × Session :=
  let (copies, failure, w) := s.world.copyCases cases
  match failure with
  | some e => (.error e, { s with world := w.dropCopies copies })
  | none =>
    let (runs, s) := { s with world := w }.invokeAll engine schedule (fixTasks copies options)
    let outcomes := (s.world.compareCopies copies).map fun os => (os, runs)
    (outcomes, { s with world := s.world.dropCopies copies })

end RuleAudit
