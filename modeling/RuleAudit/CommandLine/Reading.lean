import RuleAudit.CommandLine.Refusal
import RuleAudit.CommandLine.Word
import RuleAudit.Settings.Effective

/-!
# Reading a command line

Words are read from the left. An option without an attached value takes the next word that is no
option; its value is looked at only when the next option comes, or the line ends, so that an
unknown word after it is noticed first.

## Main definitions

* `CommandLine` — what a command line asks for.
* `Reading` — what is known after some words, `Reading.readWord`.
* `CommandLine.read` — the reading of a whole command line.
* `CommandLine.settings` — the settings that are given.
-/

namespace RuleAudit

/-- What a command line asks for. -/
structure CommandLine where
  target : Text
  flags : List Flag
  config : Option Text
  engine : Option Text
  optimizations : Option Optimizations
  jobs : Option Nat
  deriving DecidableEq, Repr

/-- What is known after some words of a command line. -/
structure Reading where
  target : Option Text
  line : CommandLine
  /-- An option whose value has not been looked at, and the value, if it was there. -/
  pending : Option (Setting × Option Text)

/-- The largest number of invocations that can be given. -/
def maxJobs : Nat := Nat.pow 2 64 - 1

/-- A number in decimal digits, which may have a plus sign and leading zeros. -/
def jobsOfText? (s : Text) : Option Nat :=
  let digits := if s.head? = some '+' then s.tail else s
  if digits.isEmpty || !digits.all Char.isDigit then none
  else
    let n := digits.foldl (fun n c => 10 * n + (c.toNat - '0'.toNat)) 0
    if n ≤ maxJobs then some n else none

namespace CommandLine

/-- A line on which nothing was given. -/
def empty : CommandLine := ⟨[], [], none, none, none, none⟩

/-- Whether an option has a value. -/
def hasSetting (c : CommandLine) : Setting → Bool
  | .config => c.config.isSome
  | .optimizations => c.optimizations.isSome
  | .engine => c.engine.isSome
  | .jobs => c.jobs.isSome

/-- The line with the value of an option. -/
def withSetting (c : CommandLine) (s : Setting) (value : Text) : Except Refusal CommandLine :=
  match s with
  | .config => .ok { c with config := some value }
  | .engine => .ok { c with engine := some value }
  | .optimizations =>
    match Optimizations.ofWord? value with
    | some level => .ok { c with optimizations := some level }
    | none => .error .invalidValue
  | .jobs =>
    match jobsOfText? value with
    | some n => .ok { c with jobs := some n }
    | none => .error .invalidNumber

/-- The line with the value of an option that must not have one yet. -/
def withNewSetting (c : CommandLine) (s : Setting) (value : Text) : Except Refusal CommandLine :=
  if c.hasSetting s then .error .repeated else c.withSetting s value

/-- The line with a flag that must not be there yet; its opposite is taken back. -/
def withFlag (c : CommandLine) (f : Flag) : Except Refusal CommandLine :=
  if f ∈ c.flags then .error .repeated
  else .ok { c with flags := f :: c.flags.filter fun g => f.opposite? ≠ some g }

end CommandLine

namespace Reading

/-- Nothing read yet. -/
def start : Reading := ⟨none, .empty, none⟩

/-- Whether a word was read that says something. -/
def isBlank (r : Reading) : Bool := r.target.isNone && r.line == .empty

/-- The pending option looked at. -/
def settle (r : Reading) : Except Refusal Reading :=
  match r.pending with
  | none => .ok r
  | some (_, none) => .error .invalidValue
  | some (s, some value) => do
    let line ← r.line.withNewSetting s value
    return { r with line := line, pending := none }

def readFlag (r : Reading) (f : Flag) : Except Refusal Reading := do
  let r ← r.settle
  let line ← r.line.withFlag f
  return { r with line := line }

/-- A question for information read: what is pending is looked at, then there is no run. -/
def readInquiry (r : Reading) (i : Inquiry) : Except Refusal Reading := do
  let _ ← r.settle
  match i with
  | .help => throw .help
  | .version => throw .version

def readLong (r : Reading) (name : Text) (attached : Option Text) : Except Refusal Reading :=
  match Switch.long? name, attached with
  | none, _ => .error .unknownWord
  | some (.flag f), none => r.readFlag f
  | some (.inquiry i), none => r.readInquiry i
  | some (.flag _), some _ | some (.inquiry _), some _ => .error .needlessValue
  | some (.setting s), none => do
    let r ← r.settle
    return { r with pending := some (s, none) }
  | some (.setting s), some value => do
    let r ← r.settle
    let line ← r.line.withNewSetting s value
    return { r with line := line }

/-- One-letter options read, from the left. -/
def readCluster : Reading → Text → Except Refusal Reading
  | r, [] => .ok r
  | r, letter :: rest =>
    match Switch.short? letter with
    | none => .error .unknownWord
    | some (.inr i) => r.readInquiry i
    | some (.inl f) => do
      let r ← r.readFlag f
      r.readCluster rest

/-- A word read as the target; there is one only. -/
def readTarget (r : Reading) (word : Text) : Except Refusal Reading :=
  if r.target.isSome then .error .unknownWord
  else do
    let r ← r.settle
    return { r with target := some word }

/-- A word read that is no option: the value of the option before it, or the target. -/
def readValue (r : Reading) (word : Text) : Except Refusal Reading :=
  match r.pending with
  | some (s, none) => .ok { r with pending := some (s, some word) }
  | _ => r.readTarget word

/-- The words after the end of the options: nothing but the target can stand there. -/
def readTargets : Reading → List Text → Except Refusal Reading
  | r, [] => .ok r
  | r, word :: rest => do
    let r ← r.readTarget word
    r.readTargets rest

def readWords : Reading → List Text → Except Refusal Reading
  | r, [] => .ok r
  | r, word :: rest =>
    match OptionWord.ofText word with
    | .terminator => r.readTargets rest
    | .long name attached => do
      let r ← r.readLong name attached
      r.readWords rest
    | .cluster letters => do
      let r ← r.readCluster letters
      r.readWords rest
    | .value text => do
      let r ← r.readValue text
      r.readWords rest

end Reading

namespace CommandLine

/-- What some words ask for. -/
def read (words : List Text) : Except Refusal CommandLine := do
  let r ← Reading.start.readWords words
  let r ← r.settle
  if r.isBlank then throw .nothingGiven
  match r.target with
  | none => throw .missingTarget
  | some target => return { r.line with target := target }

/-- A flag as a setting: it is given or left open. -/
def given (c : CommandLine) (f : Flag) : Option Bool := if f ∈ c.flags then some true else none

/-- Whether the course of a run is to be described. -/
def verbose (c : CommandLine) : Bool := c.flags.contains .verbose

/-- The settings that are given, for a run in a directory. -/
def settings (c : CommandLine) (directory : Path) : GivenSettings where
  start := some directory
  target := c.target
  config := c.config
  engine := c.engine
  strict := c.given .strict
  json := c.given .json
  deep := c.given .deep
  optimizations := c.optimizations
  saveArchive := if Flag.noSaveArchive ∈ c.flags then some false else c.given .saveArchive
  jobs := c.jobs

end CommandLine

end RuleAudit
