import RuleAudit.Run.Failure

/-!
# Refused command lines

A command line is read from the left, and the first word that cannot stand where it stands decides
what is answered in place of a run.
-/

namespace RuleAudit

/-- Why a command line leads to no run. -/
inductive Refusal where
  | help
  | version
  | nothingGiven
  | invalidValue
  | invalidNumber
  | unknownWord
  | repeated
  | missingTarget
  | needlessValue
  deriving DecidableEq, Repr

/-- Asking for help or the version is no mistake; everything else is. -/
def Refusal.exitCode : Refusal → ExitCode
  | .help | .version => .success
  | _ => .fatal

end RuleAudit
