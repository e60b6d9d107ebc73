import RuleAudit.Files.Listing
import RuleAudit.Path.Relative

/-!
# Configs and their targets

A config owns every target whose way from the target root, without suffixes, is its own way from
the config root. A root that is a single file stands for the directory it is in.
-/

namespace RuleAudit

/-- A target is a source file or a config that serves as a fixture, and never a golden file. -/
def Path.mayBeTarget (p : Path) : Bool := (p.isConfigTest || !p.isConfig) && !p.isGolden

/-- Whether a component is a name that starts with a dot. -/
def Component.isHidden : Component → Bool
  | .name bytes => bytes.head? == some dot
  | _ => false

/-- Whether the file or the directory it is in, below a root, starts with a dot. -/
def Path.isHiddenBelow (root p : Path) : Bool :=
  (((root.below? p).getD p.components).reverse.take 2).any Component.isHidden

namespace World

/-- The directory from which ways are measured: the root, or for a file the directory it is in. -/
def baseOf (w : World) (root : Path) : Path :=
  if w.isFile root then
    match root.parent? with
    | some p => if p.bytes.isEmpty then ⟨[dot]⟩ else p
    | none => ⟨[dot]⟩
  else root

/-- The rule configs below a root, or the root itself if it is a file. -/
def configsBelow (w : World) (root : Path) : List Path :=
  if w.isFile root then [root]
  else
    (w.everythingBelow root).filter fun p =>
      w.isFile p && p.isConfig && !Path.isHiddenBelow root p

/-- The files below a root that may be targets. -/
def candidates (w : World) (root : Path) : List Path :=
  (w.everythingBelow root).filter fun p => w.isFile p && p.mayBeTarget

/-- The file name of a path as a path of its own. -/
def lastName (p : Path) : Path := ⟨p.fileName?.getD []⟩

/-- Whether a single target file belongs to a config: their names agree without suffixes. -/
def ownsFile (config target : Path) : Bool :=
  target.mayBeTarget && (lastName config).withoutSuffixes.same (lastName target).withoutSuffixes

/-- The targets of one config among some candidates, for a target root that is a directory. -/
def targetsAmong (configBase targetRoot : Path) (candidates : List Path) (config : Path) :
    List Path :=
  candidates.filter fun t => Path.samePlace targetRoot t configBase config

/-- The targets of each config. Two single files belong together whatever their names; a config
without targets has an empty list. -/
def ownedTargets (w : World) (configRoot : Path) (configs : List Path) (targetRoot : Path) :
    OrderedMap Path (List Path) :=
  if w.isFile configRoot && w.isFile targetRoot then
    OrderedMap.ofList [(configRoot, [targetRoot])]
  else if w.isFile targetRoot then
    OrderedMap.ofList
      (configs.map fun c => (c, if ownsFile c targetRoot then [targetRoot] else []))
  else
    let candidates := w.candidates targetRoot
    let base := w.baseOf configRoot
    OrderedMap.ofList (configs.map fun c => (c, targetsAmong base targetRoot candidates c))

end World

end RuleAudit
