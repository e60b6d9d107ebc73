import Mathlib.Data.List.TFAE
import Mathlib.Tactic.TFAE
import RuleAudit.Proofs.Report.Segments
import RuleAudit.Proofs.Text.Numbers
import RuleAudit.Report.Summary

/-!
# Summaries of a report

A report is summed up as a tally, as an exit code and as a text. Each is computed by a traversal of its own;
here they are all read off one list of tests, in which each rule of each config stands once, and off the fix
tests as they were gathered.
-/

namespace RuleAudit.Report

/-! ## Tests -/

/-- The tests of a report, one for each rule of each config. -/
def tests (r : Report) : List ((Text × Text) × RuleVerdict) :=
  r.results.entries.flatMap fun e => e.2.entries.map fun c => ((e.1, c.1), c.2)

end RuleAudit.Report
