import RuleAudit.Scoring.Comparison

/-!
# Verdicts

A rule passes when all of its comparisons do, and a file when all comparisons in it do.
-/

namespace RuleAudit

/-- The verdict of a rule with the comparisons it rests on. -/
structure RuleVerdict where
  passed : Bool
  files : FileComparisons
  deriving DecidableEq

/-- The verdicts of a config, by rule. -/
abbrev ConfigVerdict := OrderedMap Text RuleVerdict

/-- The verdict of each rule. -/
def ConfigVerdict.ofComparisons (ms : RuleComparisons) : ConfigVerdict :=
  ms.mapValues fun _ files => ⟨files.values.all LineComparison.passed, files⟩

/-- Whether a file, by the text of its path, has a failed comparison. -/
def ConfigVerdict.fails (r : ConfigVerdict) (file : Text) : Bool :=
  r.values.any fun check => check.files.entries.any fun (f, m) => f == file && !m.passed

/-- The targets without a failed comparison; a target without any comparison is one. -/
def passingTargets (place : Path → Path) (result : ConfigVerdict) (targets : List Path) :
    OrderedSet Path :=
  OrderedSet.ofList (targets.filter fun t => !ConfigVerdict.fails result (place t).display)

end RuleAudit
