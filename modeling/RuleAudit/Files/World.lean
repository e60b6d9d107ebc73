import RuleAudit.Files.Tree

/-!
# Files as a program sees them

A path is followed from the root or from the working directory, one piece of its text at a time, as
far as what stands there allows.

## Main definitions

* `World` — a tree, the working directory and the directory for temporary files.
* `World.resolve` — where a path leads.
* `World.read`, `World.write`, `World.remove`, `World.copy` — the operations on files.
* `World.normalize` — the absolute path without links of what a path names.
-/

namespace RuleAudit

/-- Where a path leads: to something, or to a free place in a directory. -/
inductive Spot where
  | taken (place : Place) (node : Node)
  /-- Nothing stands there, but the directory above does. -/
  | free (place : Place)
  deriving DecidableEq, Repr

/-- The files that a program sees. -/
@[ext] structure World where
  tree : Tree
  home : Place
  scratch : Place

namespace World

/-! ## Following a path -/

/-- What happens at a link: the rest of the way from a directory. -/
abbrev Follow := Place → List (List UInt8) → Except Cause Spot

/-- The way along some pieces from a directory. Empty pieces and `.` stay where they are. A link is
followed unless it is the last piece and `last` says not to. -/
def walk (t : Tree) (last : Bool) (follow : Follow) (place : Place) :
    List (List UInt8) → Except Cause Spot
  | [] => .ok (.taken place .directory)
  | piece :: rest =>
    if piece = [] ∨ piece = [dot] then walk t last follow place rest
    else if piece = [dot, dot] then walk t last follow place.tail rest
    else
      match Name.ofBytes? piece with
      -- Pieces between slashes are proper names.
      | none => .error .notFound
      | some name =>
        match t.node? (name :: place) with
        | none => if rest.isEmpty then .ok (.free (name :: place)) else .error .notFound
        | some .directory => walk t last follow (name :: place) rest
        | some (.file bytes runnable) =>
          if rest.isEmpty then .ok (.taken (name :: place) (.file bytes runnable))
          else .error .notADirectory
        | some (.link target) =>
          if rest.isEmpty && !last then .ok (.taken (name :: place) (.link target))
          else
            follow (if target.head? = some slash then [] else place)
              (Text.splitOn slash target ++ rest)

/-- The way along some pieces, through at most `budget` links. -/
def walkWithin (t : Tree) (last : Bool) : Nat → Follow
  | 0 => walk t last fun _ _ => .error .tooManyLinks
  | budget + 1 => walk t last (walkWithin t last budget)

/-- The number of links that a path may lead through. -/
def linkBudget : Nat := 40

/-- Where a path leads; `last` says whether a link at its end is followed. The empty path leads
nowhere. -/
def resolve (w : World) (last : Bool) (p : Path) : Except Cause Spot :=
  if p.bytes.isEmpty then .error .notFound
  else
    walkWithin w.tree last linkBudget (if p.isAbsolute then [] else w.home)
      (Text.splitOn slash p.bytes)

/-- What a path names, links followed, and where that stands. -/
def locate (w : World) (p : Path) : Except Cause (Place × Node) :=
  match w.resolve true p with
  | .ok (.taken place node) => .ok (place, node)
  | .ok (.free _) => .error .notFound
  | .error e => .error e

/-! ## Questions -/

/-- Whether a path names anything. -/
def has (w : World) (p : Path) : Bool := (w.locate p).isOk

/-- Whether a path names a regular file. -/
def isFile (w : World) (p : Path) : Bool :=
  match w.locate p with
  | .ok (_, .file ..) => true
  | _ => false

/-- Whether a path names a directory. -/
def isDirectory (w : World) (p : Path) : Bool :=
  match w.locate p with
  | .ok (_, .directory) => true
  | _ => false

/-- The absolute path of what `p` names. If it names nothing, it is put below the working
directory as it is. -/
def normalize (w : World) (p : Path) : Path :=
  match w.locate p with
  | .ok (place, _) => place.path
  | .error _ => if p.isAbsolute then p else w.home.path.join p

/-! ## Operations -/

/-- The bytes of a file. -/
def read (w : World) (p : Path) : Except Cause (List UInt8) :=
  match w.locate p with
  | .ok (_, .file bytes _) => .ok bytes
  | .ok _ => .error .isADirectory
  | .error e => .error e

/-- The world with something else at a place. -/
def put (w : World) (place : Place) (node : Node) : World :=
  { w with tree := w.tree.insert place node }

/-- The world with some bytes in a file, which is made if it is not there. -/
def write (w : World) (p : Path) (bytes : List UInt8) : Except Cause World :=
  match w.resolve true p with
  | .ok (.taken place (.file _ runnable)) => .ok (w.put place (.file bytes runnable))
  | .ok (.taken _ _) => .error .isADirectory
  | .ok (.free place) => .ok (w.put place (.file bytes false))
  | .error e => .error e

/-- The world without a file or link. -/
def remove (w : World) (p : Path) : Except Cause World :=
  match w.resolve false p with
  | .ok (.taken _ .directory) => .error .isADirectory
  | .ok (.taken place _) => .ok { w with tree := w.tree.erase place }
  | .ok (.free _) => .error .notFound
  | .error e => .error e

/-- The world with a copy of a regular file at another path. -/
def copy (w : World) (source target : Path) : Except Cause World :=
  match w.locate source with
  | .ok (_, .file bytes runnable) =>
    match w.resolve true target with
    | .ok (.taken _ .directory) => .error .isADirectory
    | .ok (.taken place _) | .ok (.free place) => .ok (w.put place (.file bytes runnable))
    | .error e => .error e
  | .ok _ => .error .notRegular
  | .error e => .error e

/-! ## Building -/

/-- The world with a directory at a place and at all places above it. -/
def makeDirectory (w : World) : Place → World
  | [] => w
  | name :: above =>
    let w := w.makeDirectory above
    match w.tree.node? (name :: above) with
    | some _ => w
    | none => w.put (name :: above) .directory

/-- The world with something at a path below a place; directories are made as needed. -/
def plant (w : World) (base : Place) (p : Path) (node : Node) : World :=
  let names := p.components.filterMap fun c => c.name?.bind Name.ofBytes?
  let place := names.reverse ++ base
  match walkWithin w.tree true linkBudget base (names.dropLast.map Name.bytes) with
  | .ok (.taken above .directory) => w.put (names.getLast?.toList ++ above) node
  | _ => (w.makeDirectory place.tail).put place node

end World

end RuleAudit
