import RuleAudit.Text.Utf8

/-!
# Paths

A path is a sequence of bytes, which need not be valid UTF-8. It is read in three ways: as the bytes, which
the file system follows; as its components, by which paths are compared; and as a text in which invalid bytes
are replaced, which is what reports show and look things up by. Different paths may have one text.

Repeated slashes, a slash at the end and `.` components do not count as components, except a leading `.` of a
relative path.
-/

namespace RuleAudit

/-- The byte between the names of a path. -/
abbrev slash : UInt8 := 0x2F

/-- The byte of which `.` and `..` are made. -/
abbrev dot : UInt8 := 0x2E

/-- One step of a path. -/
inductive Component where
  | root
  /-- A leading `.`. -/
  | here
  | up
  | name (bytes : List UInt8)
  deriving DecidableEq, Repr

namespace Component

def bytes : Component → List UInt8
  | .root => [slash]
  | .here => [dot]
  | .up => [dot, dot]
  | .name bytes => bytes

/-- Components are ordered as these keys: by kind, then by name. -/
def key : Component → List Nat
  | .root => [0]
  | .here => [1]
  | .up => [2]
  | .name bytes => 3 :: bytes.map UInt8.toNat

/-- The name, if the component is one. -/
def name? : Component → Option (List UInt8)
  | .name bytes => some bytes
  | _ => none

end Component

/-- A path, as its bytes. -/
@[ext] structure Path where
  bytes : List UInt8
  deriving DecidableEq, Repr, Inhabited

namespace Path

/-- The text of a path, in which each invalid sequence of bytes reads as U+FFFD. -/
def display (p : Path) : Text := Utf8.decodeLossy p.bytes

/-- The path that the text of a path names: the path itself, if it is valid UTF-8. -/
def viaText (p : Path) : Path := ⟨p.display⟩

/-- Whether the path starts at the root of the file system. -/
def isAbsolute (p : Path) : Bool := p.bytes.head? == some slash

/-! ## Components -/

/-- The component of a piece between slashes, if it counts. -/
def component? (leading : Bool) (piece : List UInt8) : Option Component :=
  if piece = [] then none
  else if piece = [dot] then (if leading then some .here else none)
  else if piece = [dot, dot] then some .up
  else some (.name piece)

/-- The components of the pieces that come after the first piece. -/
def innerComponents (pieces : List (List UInt8)) : List Component :=
  pieces.filterMap (component? false)

/-- The components that pieces contribute; the first piece is the leading one. -/
def piecesComponents : List (List UInt8) → List Component
  | [] => []
  | first :: rest => (component? true first).toList ++ innerComponents rest

/-- The component of an absolute path that is no piece of it. -/
def rootOf (absolute : Bool) : List Component := if absolute then [.root] else []

/-- The components of a path: the root, if it is absolute, and those of its pieces. -/
def components (p : Path) : List Component :=
  rootOf p.isAbsolute ++ piecesComponents (Text.splitOn slash p.bytes)

/-- Whether two paths have the same components. -/
def same (p q : Path) : Bool := p.components == q.components

/-- The sort key of a path: the keys of its components. -/
def key (p : Path) : List (List Nat) := p.components.map Component.key

/-- Paths are ordered by their components, a shorter path first. -/
instance : Ord Path := ⟨compareOn key⟩

instance : Std.TransOrd Path := inferInstanceAs (Std.TransCmp (compareOn key))

/-! ## Parts -/

/-- The last component, if it is a name. -/
def fileName? (p : Path) : Option (List UInt8) := p.components.getLast?.bind Component.name?

/-- Whether a piece at a position counts as a component. -/
def counts (leading : Bool) (piece : List UInt8) : Bool := (component? leading piece).isSome

/-- Pieces, last first, with those at the end left out that do not count. The last of the list is
the leading one. -/
def dropUncounted : List (List UInt8) → List (List UInt8)
  | [] => []
  | piece :: pieces =>
    if counts pieces.isEmpty piece then piece :: pieces else dropUncounted pieces

/-- The path up to the last component that counts, without that component and what separates it
from the one before. The root and the empty path have no parent. -/
def parent? (p : Path) : Option Path :=
  match dropUncounted (Text.splitOn slash p.bytes).reverse with
  | [] => none
  | _ :: before =>
    match dropUncounted before with
    | [] => some ⟨if p.isAbsolute then [slash] else []⟩
    | kept => some ⟨List.intercalate [slash] kept.reverse⟩

/-- What follows the last dot of the file name, if something stands before that dot. -/
def extension? (p : Path) : Option (List UInt8) :=
  p.fileName?.bind fun name =>
    match Text.splitFirst? dot name.reverse with
    | none => none
    | some (after, before) => if before.isEmpty then none else some after.reverse

/-! ## Building -/

/-- The path `q` seen from `p`: an absolute `q` stands for itself, and no slash is added after an
empty `p` or after a slash. -/
def join (p q : Path) : Path :=
  if q.isAbsolute then q
  else if p.bytes.isEmpty || p.bytes.getLast? == some slash then ⟨p.bytes ++ q.bytes⟩
  else ⟨p.bytes ++ slash :: q.bytes⟩

/-- The path that is the sequence of some components. -/
def ofComponents (cs : List Component) : Path := cs.foldl (fun p c => p.join ⟨c.bytes⟩) ⟨[]⟩

/-- The path with its file name replaced, or with the name added below a path without one. -/
def withFileName (p : Path) (name : List UInt8) : Path :=
  if p.fileName?.isSome then (p.parent?.getD p).join ⟨name⟩ else p.join ⟨name⟩

/-- The components below a base; none if the path is not below it. -/
def below? (base p : Path) : Option (List Component) :=
  if base.components.isPrefixOf p.components then
    some (p.components.drop base.components.length)
  else none

end Path

/-! ## Names -/

/-- What can be the name of something in a directory: nonempty, without a slash, neither `.` nor `..`. -/
def ProperName (name : List UInt8) : Prop :=
  name ≠ [] ∧ name ≠ [dot] ∧ name ≠ [dot, dot] ∧ slash ∉ name

instance (name : List UInt8) : Decidable (ProperName name) :=
  inferInstanceAs (Decidable (_ ∧ _ ∧ _ ∧ _))

/-- The name of something in a directory. -/
@[ext] structure Name where
  bytes : List UInt8
  proper : ProperName bytes
  deriving DecidableEq, Repr

namespace Name

/-- The name that some bytes are, if they can be one. -/
def ofBytes? (bytes : List UInt8) : Option Name :=
  if h : ProperName bytes then some ⟨bytes, h⟩ else none

/-- Names are ordered by their bytes. -/
def key (name : Name) : List Nat := name.bytes.map UInt8.toNat

instance : Ord Name := ⟨compareOn key⟩

instance : Std.TransOrd Name := inferInstanceAs (Std.TransCmp (compareOn key))

end Name

end RuleAudit
