import RuleAudit.Fixing.Comparison
import RuleAudit.Scoring.Reported

/-!
# Annotations of files

Targets are read and parsed. Their annotations are kept by the absolute path without links, so all paths that lead
to one file share them.
-/

namespace RuleAudit.World

/-- The annotations of some targets added to others. The first target that cannot be read ends
it. -/
def annotateInto (w : World) (known : Annotated) : List Path → Except RunError Annotated
  | [] => .ok known
  | t :: rest =>
    match w.readText t with
    | .error e => .error e
    | .ok text => annotateInto w (known.insert (w.normalize t) (Annotations.ofText text)) rest

/-- The annotations of some targets. -/
def annotationsOf (w : World) (targets : List Path) : Except RunError Annotated :=
  w.annotateInto .empty targets

end RuleAudit.World
