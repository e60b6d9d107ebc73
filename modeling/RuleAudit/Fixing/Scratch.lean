import RuleAudit.Files.World
import RuleAudit.Run.Failure

/-!
# Temporary copies

Engines never change the files of a user: they are given copies with fresh names in the directory
for temporary files.
-/

namespace RuleAudit.World

/-- What the names of copies start with. -/
def copyLabel : Text := "ruletest-".toList

/-- The name of the `n`-th possible copy. -/
def copyName (n : Nat) (ending : Text) : Text :=
  let digits := Nat.toDigits 16 n
  copyLabel ++ List.replicate (6 - digits.length) '0' ++ digits ++ ending

/-- The path of the `n`-th possible copy. -/
def copyPath (w : World) (n : Nat) (ending : Text) : Path :=
  w.scratch.path.join ⟨copyName n ending⟩

/-- Whether nothing stands at a path, in a directory that is there. -/
def isFree (w : World) (p : Path) : Bool :=
  match w.resolve false p with
  | .ok (.free _) => true
  | _ => false

/-- The first path for a copy that is free. A tree has fewer entries than there are numbers up to its
size, so there is one, unless something is wrong with the directory for temporary files. -/
def freshPath (w : World) (ending : Text) : Except Cause Path :=
  match ((List.range (w.tree.size + 1)).map (w.copyPath · ending)).find? w.isFree with
  | some p => .ok p
  | none =>
    match w.locate w.scratch.path with
    | .ok _ => .error .notADirectory
    | .error cause => .error cause

/-- The ending of a copy: the extension of the file with its dot. -/
def copyEnding (p : Path) : Text := (p.extension?.map fun e => '.' :: Utf8.decodeLossy e).getD []

/-- A copy of a file under a fresh name that keeps the extension. -/
def copyToScratch (w : World) (p : Path) : Except RunError (Path × World) :=
  match w.freshPath (copyEnding p) with
  | .error cause => .error (.file w.scratch.path cause)
  | .ok copy =>
    match w.copy p copy with
    | .ok w => .ok (copy, w)
    | .error cause => .error (.file p cause)

end RuleAudit.World
