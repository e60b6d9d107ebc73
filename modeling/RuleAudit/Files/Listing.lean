import RuleAudit.Files.World
import RuleAudit.Ordered.Sort

/-!
# Listings

Everything below a directory, each entry as a path that starts with the directory as it was given. The listing is
that of a pattern made from the text of the directory: a directory whose path is not valid UTF-8 is looked for
under the text with its invalid bytes replaced, and an entry whose own name is not valid UTF-8 is passed over.
-/

namespace RuleAudit.World

/-- Whether a path is the working directory itself. -/
def isCurrent (p : Path) : Bool := p.same ⟨[dot]⟩

/-- A path below another one; the working directory is left out of the text. -/
def childOf (p : Path) (name : List UInt8) : Path := if isCurrent p then ⟨name⟩ else p.join ⟨name⟩

/-- The path reached by one more piece of a root. `.` and `..` are taken below any directory, other
pieces only if something stands there. -/
def enter (w : World) (p : Path) (piece : List UInt8) : Option Path :=
  let next := childOf p piece
  if piece = [dot] ∨ piece = [dot, dot] then (if w.isDirectory p then some next else none)
  else
    match w.resolve false next with
    | .ok (.taken ..) => some next
    | _ => none

/-- The path that a listing of a root starts from. The root is looked for by its text, whose pieces
are entered one by one, so repeated slashes collapse and a leading `.` goes. -/
def scope? (w : World) (root : Path) : Option Path :=
  match root.viaText.bytes with
  | [] => some ⟨[slash]⟩
  | b :: rest =>
    if b = slash then (Text.splitOn slash rest).foldlM w.enter ⟨[slash]⟩
    else (Text.splitOn slash (b :: rest)).foldlM w.enter ⟨[dot]⟩

/-- Everything below a path, to a depth of at most `depth`. Links to directories are followed. What
has a name that is not valid UTF-8 is left out, but not what lies below it. -/
def below (w : World) : Nat → Path → List Path
  | 0, _ => []
  | depth + 1, p =>
    match w.locate p with
    | .ok (place, .directory) =>
      (w.tree.childNames place).flatMap fun name =>
        let child := childOf p name.bytes
        (if Utf8.isValid name.bytes then [child] else []) ++ below w depth child
    | _ => []

/-- A depth that no way down a tree exceeds: between two links it visits each place at most once,
and a path leads through a bounded number of links. -/
def depthBound (w : World) : Nat := (linkBudget + 2) * (w.tree.size + 2)

/-- All paths below a root, in path order. A root that is no directory has none. -/
def everythingBelow (w : World) (root : Path) : List Path :=
  match w.scope? root with
  | none => []
  | some start => sortOn Path.key (w.below w.depthBound start)

end RuleAudit.World
