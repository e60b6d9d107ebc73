import RuleAudit.Finding
import RuleAudit.Json.Reader
import RuleAudit.Json.Printer
import RuleAudit.Text.Quoted

/-!
# Engine documents

An engine answers with a document. Its `results` are findings, each an object or an array of the
same fields in a fixed order; its `errors` are what went wrong while it ran.
-/

namespace RuleAudit

namespace Shape

/-- What a value was expected to be. -/
inductive Wanted where
  | finding
  | position
  | ruleText
  | pathText
  | lineNumber
  deriving DecidableEq, Repr

/-- The name of what was expected. -/
def Wanted.text : Wanted → Text
  | .finding => "struct RawFinding".toList
  | .position => "struct Position".toList
  | .ruleText => "a string".toList
  | .pathText => "path string".toList
  | .lineNumber => "usize".toList

/-- The fields of a finding and of a position. -/
inductive Field where
  | rule
  | path
  | start
  | line
  deriving DecidableEq, Repr

def Field.key : Field → Text
  | .rule => "check_id".toList
  | .path => "path".toList
  | .start => "start".toList
  | .line => "line".toList

/-- Why a value is not a finding. -/
inductive Fault where
  | resultsNotArray
  | wrongKind (got : Json) (wanted : Wanted)
  | negativeLine (got : Int)
  | missingField (field : Field)
  | tooShort (length : Nat) (wanted : Wanted)
  | tooLong (length : Nat)

/-- A value as messages speak of it. -/
def describe : Json → Text
  | .null => "null".toList
  | .bool true => "boolean `true`".toList
  | .bool false => "boolean `false`".toList
  | .integer i => "integer `".toList ++ Text.ofInt i ++ ['`']
  | .real x => "floating point `".toList ++ x.text ++ ['`']
  | .string s => "string ".toList ++ Text.quoted s
  | .array _ => "sequence".toList
  | .object _ => "map".toList

/-- What an array was expected to be, with the number of its items. -/
def Wanted.sized : Wanted → Text
  | .finding => "struct RawFinding with 3 elements".toList
  | .position => "struct Position with 1 element".toList
  | other => other.text

/-- The wording of a fault. -/
def Fault.message : Fault → Text
  | .resultsNotArray => "`results` is not an array".toList
  | .wrongKind got wanted =>
    "invalid type: ".toList ++ describe got ++ ", expected ".toList ++ wanted.text
  | .negativeLine i =>
    "invalid value: integer `".toList ++ Text.ofInt i ++ "`, expected usize".toList
  | .missingField field => "missing field `".toList ++ field.key ++ ['`']
  | .tooShort n wanted =>
    "invalid length ".toList ++ Text.ofNat n ++ ", expected ".toList ++ wanted.sized
  | .tooLong n =>
    "invalid length ".toList ++ Text.ofNat n ++ ", expected fewer elements in array".toList

/-! ## Reading fields -/

def rule : Json → Except Fault Text
  | .string s => .ok s
  | other => .error (.wrongKind other .ruleText)

def path : Json → Except Fault Path
  | .string s => .ok ⟨s⟩
  | other => .error (.wrongKind other .pathText)

def line : Json → Except Fault Nat
  | .integer i => if i < 0 then .error (.negativeLine i) else .ok i.toNat
  | other => .error (.wrongKind other .lineNumber)

/-- Members read in the order of the document: the value read of the only field that counts. -/
def lineAmong : List (Text × Json) → Option Nat → Except Fault (Option Nat)
  | [], found => .ok found
  | (k, v) :: rest, found =>
    if k = Field.line.key then
      match line v with
      | .error e => .error e
      | .ok n => lineAmong rest (some n)
    else lineAmong rest found

/-- The place where a match starts, given as an object or as an array. -/
def start : Json → Except Fault Nat
  | .object members =>
    match lineAmong members none with
    | .error e => .error e
    | .ok none => .error (.missingField .line)
    | .ok (some n) => .ok n
  | .array [] => .error (.tooShort 0 .position)
  | .array (first :: rest) =>
    match line first with
    | .error e => .error e
    | .ok n => if rest.isEmpty then .ok n else .error (.tooLong (rest.length + 1))
  | other => .error (.wrongKind other .position)

/-- The fields of a finding that were read so far. -/
structure Parts where
  rule : Option Text
  path : Option Path
  line : Option Nat

/-- Members read in the order of the document; the first bad value decides. -/
def partsAmong : List (Text × Json) → Parts → Except Fault Parts
  | [], parts => .ok parts
  | (k, v) :: rest, parts =>
    if k = Field.rule.key then
      match rule v with
      | .error e => .error e
      | .ok r => partsAmong rest { parts with rule := some r }
    else if k = Field.path.key then
      match path v with
      | .error e => .error e
      | .ok p => partsAmong rest { parts with path := some p }
    else if k = Field.start.key then
      match start v with
      | .error e => .error e
      | .ok n => partsAmong rest { parts with line := some n }
    else partsAmong rest parts

/-- The finding of an array: the fields in their order, the first fault decides. -/
def findingOfItems (items : List Json) : Except Fault Finding := do
  let some first := items[0]? | throw (.tooShort 0 .finding)
  let ruleId ← rule first
  let some second := items[1]? | throw (.tooShort 1 .finding)
  let file ← path second
  let some third := items[2]? | throw (.tooShort 2 .finding)
  let n ← start third
  if 3 < items.length then throw (.tooLong items.length)
  return ⟨ruleId, file, n⟩

/-- The finding of an object: after the values, the fields that are missing. -/
def findingOfMembers (members : List (Text × Json)) : Except Fault Finding := do
  let parts ← partsAmong members ⟨none, none, none⟩
  let some ruleId := parts.rule | throw (.missingField .rule)
  let some file := parts.path | throw (.missingField .path)
  let some n := parts.line | throw (.missingField .start)
  return ⟨ruleId, file, n⟩

/-- The finding that a value describes. -/
def finding : Json → Except Fault Finding
  | .object members => findingOfMembers members
  | .array items => findingOfItems items
  | other => .error (.wrongKind other .finding)

end Shape

/-- Findings and the document they came from. -/
structure Scan where
  findings : List Finding
  raw : Json
  deriving Inhabited

namespace Scan

/-- No findings and no document. -/
def empty : Scan := ⟨[], .null⟩

/-- The findings of a document; one without `results` has none. -/
def ofDocument (raw : Json) : Except Shape.Fault Scan :=
  match raw.get? "results".toList with
  | none => .ok ⟨[], raw⟩
  | some (.array items) => (items.mapM Shape.finding).map fun findings => ⟨findings, raw⟩
  | some _ => .error .resultsNotArray

end Scan

/-! ## Errors in a document -/

/-- Whether an entry is only a warning or a notice. -/
def isPassing (entry : Json) : Bool :=
  match (entry.get? "level".toList).bind Json.text? with
  | some level => level == "warn".toList || level == "info".toList
  | none => false

/-- The message of an entry: its kind and its message, or what there is of them, or all of it. -/
def errorText (entry : Json) : Text :=
  let textAt (key : String) : Option Text := (entry.get? key.toList).bind Json.text?
  match textAt "type", textAt "message" with
  | some kind, some message => kind ++ ": ".toList ++ message
  | none, some message => message
  | some kind, none => kind
  | none, none => entry.compact

/-- The messages of the errors of a document that are neither warnings nor notices. -/
def blockingErrors (raw : Json) : List Text :=
  match (raw.get? "errors".toList).bind Json.items? with
  | none => []
  | some entries => (entries.filter fun e => !isPassing e).map errorText

end RuleAudit
