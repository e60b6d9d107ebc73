import RuleAudit.Text.Basic

/-!
# The words of a command line

The form of a word says what it is: two dashes start a long option, one dash a cluster of short
ones, and two dashes alone end the options. A dash alone is a value like any other word. Words are texts: a command
line with bytes that are not valid UTF-8 is refused before any of its words are looked at.
-/

namespace RuleAudit

/-- What a word of a command line is by its form. -/
inductive OptionWord where
  | terminator
  | long (name : Text) (attached : Option Text)
  | cluster (letters : Text)
  | value (text : Text)
  deriving DecidableEq, Repr

namespace OptionWord

/-- The form of a word. -/
def ofText : Text → OptionWord
  | ['-', '-'] => .terminator
  | '-' :: '-' :: body =>
    match Text.splitFirst? '=' body with
    | some (name, attached) => .long name (some attached)
    | none => .long body none
  | ['-'] => .value ['-']
  | '-' :: letters => .cluster letters
  | other => .value other

end OptionWord

/-- The options that are given or not. -/
inductive Flag where
  | strict
  | json
  | deep
  | saveArchive
  | noSaveArchive
  | verbose
  deriving DecidableEq, Repr

/-- The options with a value. -/
inductive Setting where
  | config
  | optimizations
  | engine
  | jobs
  deriving DecidableEq, Repr

/-- The options that ask for information in place of a run. -/
inductive Inquiry where
  | help
  | version
  deriving DecidableEq, Repr

/-- Any option. -/
inductive Switch where
  | flag (f : Flag)
  | setting (s : Setting)
  | inquiry (i : Inquiry)
  deriving DecidableEq, Repr

/-- The flag that a flag takes back. -/
def Flag.opposite? : Flag → Option Flag
  | .saveArchive => some .noSaveArchive
  | .noSaveArchive => some .saveArchive
  | _ => none

namespace Switch

/-- The options with their long names. -/
def table : List (Text × Switch) :=
  [("config".toList, .setting .config), ("strict".toList, .flag .strict),
    ("json".toList, .flag .json), ("deep".toList, .flag .deep),
    ("optimizations".toList, .setting .optimizations),
    ("save-archive".toList, .flag .saveArchive),
    ("no-save-archive".toList, .flag .noSaveArchive), ("engine".toList, .setting .engine),
    ("jobs".toList, .setting .jobs), ("verbose".toList, .flag .verbose),
    ("help".toList, .inquiry .help), ("version".toList, .inquiry .version)]

/-- The option with a long name. Names are not shortened, and case counts. -/
def long? (name : Text) : Option Switch := table.lookup name

/-- The option with a letter; none of these takes a value. -/
def short? (letter : Char) : Option (Flag ⊕ Inquiry) :=
  if letter = 'v' then some (.inl .verbose)
  else if letter = 'h' then some (.inr .help)
  else if letter = 'V' then some (.inr .version)
  else none

end Switch

end RuleAudit
