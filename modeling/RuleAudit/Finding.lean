import RuleAudit.Path.Basic

/-!
# Findings

What an engine reports: a rule, a file and the line where the match starts.
-/

namespace RuleAudit

/-- One report of an engine. -/
structure Finding where
  rule : Text
  path : Path
  /-- The line where the match starts, counted from one. -/
  line : Nat
  deriving DecidableEq, Repr

end RuleAudit
