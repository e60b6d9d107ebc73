import RuleAudit.Json.Value
import RuleAudit.Number.Shortest

/-!
# Document text

Two layouts of a document: on one line without blanks, and with one item per line, indented by two
blanks for each level.
-/

namespace RuleAudit.Json

/-- A hexadecimal digit in lower case. -/
def hexDigit (n : Nat) : Char := (Nat.digitChar (n % 16))

/-- One character of a string. -/
def escaped (c : Char) : Text :=
  if c = '"' then ['\\', '"']
  else if c = '\\' then ['\\', '\\']
  else if c = '\n' then ['\\', 'n']
  else if c = '\r' then ['\\', 'r']
  else if c = '\t' then ['\\', 't']
  else if c = '\x08' then ['\\', 'b']
  else if c = '\x0c' then ['\\', 'f']
  else if c.toNat < 0x20 then ['\\', 'u', '0', '0', hexDigit (c.toNat / 16), hexDigit c.toNat]
  else [c]

/-- A string between quotes. -/
def quoted (s : Text) : Text := '"' :: s.flatMap escaped ++ ['"']

/-- The text of a document that has no parts. -/
def scalarText : Json → Text
  | .null => ['n', 'u', 'l', 'l']
  | .bool true => ['t', 'r', 'u', 'e']
  | .bool false => ['f', 'a', 'l', 's', 'e']
  | .integer i => Text.ofInt i
  | .real x => x.text
  | .string s => quoted s
  | .array _ => ['[', ']']
  | .object _ => ['\x7b', '\x7d']

mutual

/-- The document on one line without blanks. -/
def compact : Json → Text
  | .array items => '[' :: compactItems items ++ [']']
  | .object members => '\x7b' :: compactMembers members ++ ['\x7d']
  | scalar => scalarText scalar

/-- Items with commas between them. -/
def compactItems : List Json → Text
  | [] => []
  | [item] => compact item
  | item :: rest => compact item ++ ',' :: compactItems rest

/-- Members with commas between them. -/
def compactMembers : List (Text × Json) → Text
  | [] => []
  | [(key, value)] => quoted key ++ ':' :: compact value
  | (key, value) :: rest => quoted key ++ ':' :: compact value ++ ',' :: compactMembers rest

end

/-- A new line indented by `depth` levels. -/
def newLine (depth : Nat) : Text := '\n' :: List.replicate (2 * depth) ' '

mutual

/-- The document in the indented layout, at a level of nesting. -/
def prettyAt (depth : Nat) : Json → Text
  | .array [] => ['[', ']']
  | .array items =>
    '[' :: newLine (depth + 1) ++ prettyItems (depth + 1) items ++ newLine depth ++ [']']
  | .object [] => ['\x7b', '\x7d']
  | .object members =>
    '\x7b' :: newLine (depth + 1) ++ prettyMembers (depth + 1) members ++ newLine depth ++ ['\x7d']
  | scalar => scalarText scalar

def prettyItems (depth : Nat) : List Json → Text
  | [] => []
  | [item] => prettyAt depth item
  | item :: rest => prettyAt depth item ++ ',' :: newLine depth ++ prettyItems depth rest

def prettyMembers (depth : Nat) : List (Text × Json) → Text
  | [] => []
  | [(key, value)] => quoted key ++ ':' :: ' ' :: prettyAt depth value
  | (key, value) :: rest =>
    quoted key ++ ':' :: ' ' :: prettyAt depth value ++ ',' :: newLine depth ++
      prettyMembers depth rest

end

/-- The document in the indented layout. -/
def pretty (doc : Json) : Text := prettyAt 0 doc

end RuleAudit.Json
