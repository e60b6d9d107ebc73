import RuleAudit.CommandLine.Program
import RuleAudit.Shell.Script

/-!
# Runs inside runs

The program as a process among others: its engine is a script, and a script may start the program again.
-/

namespace RuleAudit

/-- What the process of a run of the program leaves behind. -/
def Printed.finished (p : Printed) : Finished :=
  ⟨.exited p.code.toNat, Utf8.encode p.stdout, Utf8.encode p.stderr⟩

/-- The engine of a given name, a script. It can start the program that asks it, and a script asked by that
one can do so again, `depth` times in all. -/
def scriptEngine (colour : Bool) : Nat → Text → Engine
  | 0 => commandEngine none
  | depth + 1 =>
    commandEngine <| some fun w words =>
      let (printed, w) := w.program (scriptEngine colour depth) .inTurn colour words
      (printed.finished, w)

/-- How many runs of the program may be inside one another. -/
def processDepth : Nat := 8

end RuleAudit
