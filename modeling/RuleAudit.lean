import RuleAudit.Engine.Scripted
import RuleAudit.Main
import RuleAudit.Proofs.Annotation.Marks
import RuleAudit.Proofs.Path.Spelling
import RuleAudit.Proofs.Scoring.Findings
import RuleAudit.Proofs.Scoring.Entries
import RuleAudit.Proofs.Scoring.Passing
import RuleAudit.Proofs.Annotation.Ids
import RuleAudit.Proofs.Scoring.Fixtures
import RuleAudit.Proofs.Scoring.Mismatches
import RuleAudit.Proofs.Scoring.TodoOk
import RuleAudit.Proofs.Scoring.TodoRule
import RuleAudit.Proofs.Files.Places
import RuleAudit.Proofs.Engine.Exchanges
import RuleAudit.Proofs.Report.Gathering
import RuleAudit.Proofs.Run.Annotated
import RuleAudit.Proofs.Pairing.Targets
import RuleAudit.Proofs.Run.Judging
import RuleAudit.Proofs.Run.Course
import RuleAudit.Proofs.Run.ExitCode
import RuleAudit.Proofs.Diff.Turns
import RuleAudit.Proofs.Diff.Changes
import RuleAudit.Proofs.Diff.Patch
import RuleAudit.Proofs.Text.Utf8
import RuleAudit.Proofs.Fixing.Comparison
import RuleAudit.Proofs.Files.Keeping
import RuleAudit.Proofs.Files.Growth
import RuleAudit.Proofs.Fixing.Copies
import RuleAudit.Proofs.Run.Passing
import RuleAudit.Proofs.Run.Gate
import RuleAudit.Proofs.Run.Accounting
import RuleAudit.Proofs.Run.Aborting
import RuleAudit.Proofs.Engine.Isolation
import RuleAudit.Proofs.Fixing.Comparing
import RuleAudit.Proofs.Fixing.Verdicts
import RuleAudit.Proofs.Fixing.Trouble
import RuleAudit.Proofs.Diff.Plans
import RuleAudit.Proofs.Diff.Table
import RuleAudit.Proofs.Diff.Shortest
import RuleAudit.Proofs.Path.Components
import RuleAudit.Proofs.Path.Suffixes
import RuleAudit.Proofs.Path.Relative
import RuleAudit.Proofs.Path.Parents
import RuleAudit.Proofs.Path.Stripping
import RuleAudit.Proofs.Path.Ancestors
import RuleAudit.Proofs.Files.Listing
import RuleAudit.Proofs.Pairing.Directories
import RuleAudit.Proofs.Pairing.Golden
import RuleAudit.Proofs.Pairing.Roles
import RuleAudit.Proofs.Text.Removal
import RuleAudit.Proofs.Annotation.Lines
import RuleAudit.Proofs.Annotation.Writing
import RuleAudit.Proofs.Annotation.Canonical
import RuleAudit.Proofs.Scoring.SameFindings
import RuleAudit.Proofs.Files.Reach
import RuleAudit.Proofs.Pairing.Configs
import RuleAudit.Proofs.Annotation.Locality
import RuleAudit.Proofs.Annotation.LineEndings
import RuleAudit.Proofs.Annotation.Coherence
import RuleAudit.Proofs.Diff.LocalEdit
import RuleAudit.Proofs.Files.Normal
import RuleAudit.Proofs.Pairing.SingleTarget
import RuleAudit.Proofs.Results
import RuleAudit.Proofs.Json.Regular
import RuleAudit.Proofs.Engine.Findings
import RuleAudit.Proofs.Engine.Processes
import RuleAudit.Proofs.Report.Segments
import RuleAudit.Proofs.Report.Summaries
import RuleAudit.Proofs.Text.Numbers
import RuleAudit.Proofs.Fixing.Cleanup
import RuleAudit.Proofs.Fixing.Handles
import RuleAudit.Proofs.Settings.Search
import RuleAudit.Proofs.Settings.Precedence
