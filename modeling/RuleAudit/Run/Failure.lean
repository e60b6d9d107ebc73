import RuleAudit.Files.Tree
import RuleAudit.Scoring.Mismatch

/-!
# Failures that end a run

A run ends without a report if its roots are wrong, if rule ids do not match, or if a file cannot be used. A pool of
workers that cannot be built and a report that cannot be written as a document are left out: the first depends on
the machine, and the second does not happen to the values that reports consist of.
-/

namespace RuleAudit

/-- What the exit code of a program says. -/
inductive ExitCode where
  | success
  | testFailure
  | fatal
  deriving DecidableEq, Repr

/-- The number of an exit code. -/
def ExitCode.toNat : ExitCode → Nat
  | .success => 0
  | .testFailure => 1
  | .fatal => 2

/-- Why a run ends without a report. -/
inductive RunError where
  | configRequired
  | notFound (path : Path)
  | ruleIdMismatch (files : List Mismatch)
  | file (path : Path) (cause : Cause)
  deriving DecidableEq, Repr

namespace RunError

/-- The wording of an error. -/
def message : RunError → Text
  | .configRequired => "--config is required when running a test on a single file".toList
  | .notFound p => "path does not exist: ".toList ++ p.display
  | .ruleIdMismatch ms =>
    "rule id mismatch in ".toList ++ Text.ofNat ms.length ++
      (" file(s); a test is annotated with a rule id that does not exist" ++
        " or is not expected in the test file").toList
  | .file p cause => "I/O error on ".toList ++ p.display ++ ": ".toList ++ cause.message

/-- Every such error is fatal. -/
def exitCode (_ : RunError) : ExitCode := .fatal

end RunError

end RuleAudit
