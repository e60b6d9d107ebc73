import RuleAudit.Diff.Unified
import RuleAudit.Fixing.Case
import RuleAudit.Files.World
import RuleAudit.Run.Failure
import RuleAudit.Text.Utf8

/-!
# Fixed files and golden files

A fixed copy and its golden file are compared as texts, line by line. Bytes that are not valid UTF-8 are replaced
on both sides before, so files with different bytes may have no difference.
-/

namespace RuleAudit.World

/-- The text of a file. -/
def readText (w : World) (p : Path) : Except RunError Text :=
  match w.read p with
  | .ok bytes => .ok (Utf8.decodeLossy bytes)
  | .error cause => .error (.file p cause)

/-- The difference from the golden file to the fixed one, labelled with their paths. The golden file
is read first. -/
def compareFixed (w : World) (fixed golden : Path) : Except RunError (List Text) := do
  let wanted ← w.readText golden
  let got ← w.readText fixed
  return diffLines wanted got golden.display fixed.display

end RuleAudit.World
