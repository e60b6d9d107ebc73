import RuleAudit.Number.Binary64
import RuleAudit.Text.Basic

/-!
# Documents

The documents that engines answer with and that reports are written in. An object keeps the order
in which its keys were first given.
-/

namespace RuleAudit

/-- A document. Integers in the signed and unsigned 64-bit ranges are exact, other numbers are
binary floating-point numbers. -/
inductive Json where
  | null
  | bool (b : Bool)
  | integer (i : Int)
  | real (x : Binary64)
  | string (s : Text)
  | array (items : List Json)
  | object (members : List (Text × Json))
  deriving Inhabited, Repr, BEq

namespace Json

/-- The members with the value of `key` set: in its place if the key is there, else at the end. -/
def put (key : Text) (value : Json) : List (Text × Json) → List (Text × Json)
  | [] => [(key, value)]
  | (k, v) :: rest => if k = key then (k, value) :: rest else (k, v) :: put key value rest

/-- The first value of a key among members. -/
def member? (key : Text) : List (Text × Json) → Option Json
  | [] => none
  | (k, v) :: rest => if k = key then some v else member? key rest

/-- The member of an object; a document of another kind has none. -/
def get? (key : Text) : Json → Option Json
  | .object members => member? key members
  | _ => none

def items? : Json → Option (List Json)
  | .array items => some items
  | _ => none

def text? : Json → Option Text
  | .string s => some s
  | _ => none

/-- A natural number as a document. -/
def ofNat (n : Nat) : Json := .integer n

end Json

end RuleAudit
