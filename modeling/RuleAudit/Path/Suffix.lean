import RuleAudit.Path.Basic

/-!
# File name suffixes

The suffixes of a file name are its dot-separated parts after the first. Leading dots mark a hidden
file and start no suffix, and a name that ends in a dot has none. What remains of a name without
its suffixes is the key by which files are paired.
-/

namespace RuleAudit

namespace Suffix

def ofName (name : Text) : List Text :=
  if name.getLast? = some '.' then []
  else ((Text.splitOn '.' (name.dropWhile (· == '.'))).drop 1).map ('.' :: ·)

/-- The last suffix of a name. -/
def last? (name : Text) : Option Text := (ofName name).getLast?

/-- The name without its last suffix, as often as `fuel` allows. -/
def stripWithin : Nat → Text → Text
  | 0, name => name
  | fuel + 1, name =>
    match last? name with
    | none => name
    | some s => stripWithin fuel (name.take (name.length - s.length))

/-- The name without suffixes. Each suffix takes at least one character, so the length of the name
bounds their number. -/
def strip (name : Text) : Text := stripWithin name.length name

def configSuffixes : List Text := [".yaml".toList, ".yml".toList]

/-- The suffix before that of a config that makes it a fixture. -/
def test : Text := ".test".toList

/-- The suffix of a golden file, the expected result of a fix. -/
def golden : Text := ".fixed".toList

end Suffix

namespace Path

/-- The text of the file name. -/
def nameText? (p : Path) : Option Text := p.fileName?.map Utf8.decodeLossy

/-- The suffixes of the file name. -/
def suffixes (p : Path) : List Text := (p.nameText?.map Suffix.ofName).getD []

/-- The last suffix of the file name. -/
def lastSuffix? (p : Path) : Option Text := p.suffixes.getLast?

/-- Whether the last suffix is that of a rule config. -/
def isConfig (p : Path) : Bool := p.lastSuffix?.any Suffix.configSuffixes.contains

/-- Whether the last two suffixes are those of a config that serves as a fixture. -/
def isConfigTest (p : Path) : Bool :=
  match p.suffixes.reverse with
  | final :: test :: _ => test == Suffix.test && Suffix.configSuffixes.contains final
  | _ => false

/-- Whether some suffix marks a golden file. -/
def isGolden (p : Path) : Bool := p.suffixes.contains Suffix.golden

/-- Whether two paths have the same last suffix, or both none. -/
def sameLastSuffix (p q : Path) : Bool := p.lastSuffix? == q.lastSuffix?

/-- The path without the suffixes of its file name. The file name becomes what its text is without suffixes;
a path whose name has none is left as it is, byte for byte. -/
def withoutSuffixes (p : Path) : Path :=
  match p.nameText? with
  | none => p
  | some name => if (Suffix.ofName name).isEmpty then p else p.withFileName (Suffix.strip name)

end Path

end RuleAudit
