import RuleAudit.Settings.Document

/-!
# Where settings are found

Settings are looked for in the starting directory and then upwards. A settings file or a repository
ends the search.
-/

namespace RuleAudit

namespace FileSettings

/-- The formats of settings files, in the order in which they are looked for. -/
inductive Format where
  | toml
  | yaml
  | yml
  deriving DecidableEq, Repr

def Format.fileName : Format → Text
  | .toml => "ruletest.toml".toList
  | .yaml => "ruletest.yaml".toList
  | .yml => "ruletest.yml".toList

/-- All formats, in order. -/
def Format.all : List Format := [toml, yaml, yml]

/-- The settings of a text in a format. -/
def Format.read? : Format → Text → Option FileSettings
  | .toml => ofToml?
  | .yaml => ofYaml?
  | .yml => ofYaml?

end FileSettings

namespace World

/-- The name of the directory that marks a repository. -/
def repositoryMark : Text := ".git".toList

/-- The names that end the search in a directory. -/
def markNames : List Text :=
  FileSettings.Format.all.map FileSettings.Format.fileName ++ [repositoryMark]

/-- Whether a directory ends the search. -/
def isMarked (w : World) (dir : Path) : Bool :=
  markNames.any fun name => w.has (dir.join ⟨name⟩)

/-- The first marked directory from `dir` upwards, in at most `steps` steps. -/
def markedAbove (w : World) : Nat → Path → Option Path
  | 0, _ => none
  | steps + 1, dir =>
    if w.isMarked dir then some dir
    else
      match dir.parent? with
      | some above => markedAbove w steps above
      | none => none

/-- The directory where the search from `start` ends: the nearest marked one, or `start` itself.
Each step shortens the path. -/
def findRoot (w : World) (start : Path) : Path :=
  (w.markedAbove (start.bytes.length + 1) start).getD start

/-- The settings in a directory: those of the first file that is there. One that cannot be read or
makes no sense gives none, and no other file is looked at. -/
def loadSettings (w : World) (dir : Path) : Option FileSettings :=
  match FileSettings.Format.all.find? fun f => w.has (dir.join ⟨f.fileName⟩) with
  | none => none
  | some f =>
    match w.read (dir.join ⟨f.fileName⟩) with
    | .ok bytes => (Utf8.decode? bytes).bind f.read?
    | .error _ => none

end World

end RuleAudit
