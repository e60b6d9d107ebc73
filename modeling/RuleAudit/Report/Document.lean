import RuleAudit.Report.Model

/-!
# Reports as documents

The report as the document that is printed on request, with its keys in the order of the maps behind it.
-/

namespace RuleAudit

/-- An ordered map as an object. -/
def Json.ofMap {ν : Type} (m : OrderedMap Text ν) (f : ν → Json) : Json :=
  .object (m.entries.map fun (k, v) => (k, f v))

/-- A list of numbers as an array. -/
def Json.ofNats (ns : List Nat) : Json := .array (ns.map Json.ofNat)

/-- A comparison as an object. -/
def LineComparison.document (m : LineComparison) : Json :=
  .object
    [("expected_lines".toList, .ofNats m.expected), ("reported_lines".toList, .ofNats m.reported)]

/-- The verdict of a rule as an object. -/
def RuleVerdict.document (c : RuleVerdict) : Json :=
  .object
    [("passed".toList, .bool c.passed), ("matches".toList, .ofMap c.files LineComparison.document)]

/-- The verdicts of a config as an object. -/
def ConfigVerdict.document (r : ConfigVerdict) : Json :=
  .object [("checks".toList, .ofMap r RuleVerdict.document)]

/-- A failed engine run as an object. -/
def FailedConfig.document (e : FailedConfig) : Json :=
  .object
    [("filename".toList, .string e.config), ("error".toList, .string e.error),
      ("output".toList, e.output)]

/-- The report as an object. -/
def Report.document (r : Report) : Json :=
  .object
    [("config_missing_tests".toList, .array (r.missingTests.map .string)),
      ("config_missing_fixtests".toList, .array (r.missingGolden.map .string)),
      ("config_with_errors".toList, .array (r.errors.map FailedConfig.document)),
      ("results".toList, .ofMap r.results ConfigVerdict.document),
      ("fixtest_results".toList,
        .ofMap r.fixes fun passed => .object [("passed".toList, .bool passed)])]

end RuleAudit
