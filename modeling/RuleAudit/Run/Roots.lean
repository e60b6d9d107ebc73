import RuleAudit.Files.World
import RuleAudit.Run.Failure

/-!
# Roots of a run

The paths of the target and the config of a run, made absolute and freed of links before anything is listed below
them.
-/

namespace RuleAudit

/-- Where targets and configs are looked for. -/
structure Roots where
  target : Path
  config : Path
  deriving DecidableEq, Repr

/-- The roots that a target and a config stand for. A target directory may serve as both; a single
target needs a config. -/
def World.rootsFor (w : World) (target : Path) (config : Option Path) : Except RunError Roots := do
  if !w.has target then throw (.notFound target)
  let config ← match config with
    | some c => pure c
    | none => if w.isFile target then throw .configRequired else pure target
  if !w.has config then throw (.notFound config)
  return ⟨w.normalize target, w.normalize config⟩

end RuleAudit
