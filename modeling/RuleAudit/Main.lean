import RuleAudit.CommandLine.Nesting
import RuleAudit.Files.Changes

/-!
# The command line

Reads the files that a run looks at into a tree, runs the program on it, and writes what changed
back. Nothing is decided here. Engines are scripts, run on the tree as well. The names of the machine's files
are read as texts, so files of other names are not seen.
-/

namespace RuleAudit

/-- How deep directories are read. -/
def depthLimit : Nat := 64

/-- The place that a path leads to from a directory, with links not followed. -/
def placeFrom (base : Place) (p : Path) : Place :=
  p.components.foldl
    (fun place component =>
      match component with
      | .root => []
      | .here => place
      | .up => place.tail
      | .name bytes => (Name.ofBytes? bytes).toList ++ place)
    base

/-- The place of an absolute path. -/
def placeOf (text : String) : Place := placeFrom [] ⟨text.toList⟩

/-- The result of an action, unless it fails. -/
def attempt {α : Type} (action : IO α) : IO (Option α) :=
  try
    let a ← action
    return some a
  catch _ => return none

/-- What stands at a path put into a tree, with what is below it down to some depth. A link leads
to the real path of what it names, which is read as well. -/
def World.load (w : World) : Nat → String → IO World
  | 0, _ => pure w
  | depth + 1, name => do
    let here := (← IO.currentDir) / name
    let some data ← attempt here.symlinkMetadata | return w
    let place := placeOf name
    match data.type with
    | .file =>
      let bytes := (← IO.FS.readBinFile here).toList
      let runnable := "#!".toUTF8.toList.isPrefixOf bytes
      return (w.makeDirectory place.tail).put place (.file bytes runnable)
    | .symlink =>
      let some real ← attempt (IO.FS.realPath here) | return w
      let w := (w.makeDirectory place.tail).put place (.link (Utf8.encode real.toString.toList))
      w.load depth real.toString
    | .dir =>
      let mut w := w.makeDirectory place
      for entry in (← here.readDir) do
        w ← w.load depth (entry.path.toString)
      return w
    | .other => return w

/-- The paths of what could end the search for settings at a place or above it. -/
def markPaths : Place → List Path
  | [] => World.markNames.map fun (mark : Text) => (Place.path []).join ⟨mark⟩
  | name :: above =>
    (World.markNames.map fun (mark : Text) => (Place.path (name :: above)).join ⟨mark⟩) ++ markPaths above

/-- The paths that a run with some words looks at. -/
def World.inputs (w : World) (words : List Text) : List Path :=
  match CommandLine.read words with
  | .error _ => []
  | .ok line =>
    let settings := w.effectiveSettings (line.settings w.home.path)
    settings.target :: ⟨settings.engine⟩ :: settings.config.toList

/-- A path loaded, as seen from the working directory. Where it leads through links, what it names
is loaded and linked to. -/
def World.loadPath (w : World) (depth : Nat) (p : Path) : IO World := do
  let place := placeFrom w.home p
  let name := String.ofList place.path.display
  let some real ← attempt (IO.FS.realPath name) | return w
  let w ← w.load depth real.toString
  if real.toString = name then return w
  else return (w.makeDirectory place.tail).put place (.link (Utf8.encode real.toString.toList))

def World.loadAll (w : World) (depth : Nat) (ps : List Path) : IO World :=
  ps.foldlM (fun w p => w.loadPath depth p) w

def Change.carryOut : Change → IO Unit
  | .written place bytes => IO.FS.writeBinFile (String.ofList place.path.display) ⟨bytes.toArray⟩
  | .removed place => IO.FS.removeFile (String.ofList place.path.display)

end RuleAudit

open RuleAudit in
/-- Runs the program on the files of the machine. -/
def main (args : List String) : IO UInt32 := do
  let words := args.map String.toList
  let home := placeOf (← IO.currentDir).toString
  let scratch := placeOf ((← IO.getEnv "TMPDIR").getD "/tmp")
  let w : World := { tree := .empty, home := home, scratch := scratch }
  let w ← ((w.makeDirectory home).makeDirectory scratch).loadAll 1 (markPaths home)
  let w ← w.loadAll depthLimit (w.inputs words)
  let colour := (← IO.getEnv "NO_COLOR").isNone
  let (printed, after) := w.program (scriptEngine colour processDepth) .inTurn colour words
  IO.print (String.ofList printed.stdout)
  IO.eprint (String.ofList printed.stderr)
  (w.tree.changes after.tree).forM Change.carryOut
  return printed.code.toNat.toUInt32
