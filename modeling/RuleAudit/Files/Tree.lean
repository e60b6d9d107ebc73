import RuleAudit.Ordered.Map
import RuleAudit.Path.Basic

/-!
# File trees

The state of a file system as a value: what stands at each place. Every name in it is one that a file system
allows, since names are made of nothing else. There are no owners and no permissions but the one to run a
file: what stands there can be read, written and removed.
-/

namespace RuleAudit

/-- A place in a file system: the names from the last one up to the root, so that the parent is the
tail. The root itself is the empty list. -/
abbrev Place := List Name

/-- The place whose names have the given texts, the last name first. Texts that are no names are left out. -/
def Place.ofTexts (names : List Text) : Place :=
  names.filterMap fun name => Name.ofBytes? (Utf8.encode name)

/-- The absolute path of a place. -/
def Place.path (p : Place) : Path :=
  if p.isEmpty then ⟨[slash]⟩ else ⟨p.reverse.flatMap fun name => slash :: name.bytes⟩

/-- What stands at a place. -/
inductive Node where
  | file (bytes : List UInt8) (runnable : Bool)
  | directory
  | link (target : List UInt8)
  deriving DecidableEq, Repr

/-- What stands at each place; the root is always a directory. -/
abbrev Tree := OrderedMap Place Node

namespace Tree

/-- A tree by the texts of the names in it. -/
def ofTexts (nodes : List (List Text × Node)) : Tree :=
  OrderedMap.ofList (nodes.map fun e => (Place.ofTexts e.1, e.2))

/-- What stands at a place. -/
def node? (t : Tree) (p : Place) : Option Node :=
  if p.isEmpty then some .directory else t.get? p

/-- The names of what stands directly below a place. -/
def childNames (t : Tree) (p : Place) : List Name :=
  t.keys.filterMap fun
    | name :: parent => if parent = p then some name else none
    | [] => none

end Tree

/-- Why an operation on files fails. -/
inductive Cause where
  | notFound
  | permissionDenied
  | badFormat
  | notADirectory
  | isADirectory
  | tooManyLinks
  /-- Only regular files can be copied. -/
  | notRegular
  deriving DecidableEq, Repr

/-- The wording of a cause. -/
def Cause.message : Cause → Text
  | .notFound => "No such file or directory (os error 2)".toList
  | .permissionDenied => "Permission denied (os error 13)".toList
  | .badFormat => "Exec format error (os error 8)".toList
  | .notADirectory => "Not a directory (os error 20)".toList
  | .isADirectory => "Is a directory (os error 21)".toList
  | .tooManyLinks => "Too many levels of symbolic links (os error 40)".toList
  | .notRegular =>
    "the source path is neither a regular file nor a symlink to a regular file".toList

end RuleAudit
