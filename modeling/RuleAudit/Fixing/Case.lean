import RuleAudit.Path.Basic

/-!
# Fix tests

A fix test compares what an engine makes of a target with a golden file.
-/

namespace RuleAudit

/-- A target to be fixed with a config, and the file it has to become. -/
structure GoldenCase where
  config : Path
  target : Path
  golden : Path
  deriving DecidableEq, Repr

/-- A case with the lines of the difference from the golden file to the fixed one. -/
structure GoldenVerdict where
  case : GoldenCase
  /-- The difference; none on success. -/
  diff : List Text
  deriving DecidableEq, Repr

/-- Whether there is no difference. -/
def GoldenVerdict.passed (o : GoldenVerdict) : Bool := o.diff.isEmpty

end RuleAudit
