import RuleAudit.Number.Decimal
import RuleAudit.Toml.Value

/-!
# TOML numbers and dates

Integers, other numbers, dates and times. No setting takes any but the first, so of the others only the kind is
kept, once it is clear that they are well formed.
-/

namespace RuleAudit.Toml

/-! ## Numbers -/

/-- Whether a text consists of digits with single underscores between them. -/
def isDigits (p : Char → Bool) (s : Text) : Bool :=
  (Text.splitOn '_' s).all fun group => !group.isEmpty && group.all p

/-- A text without its underscores. -/
def dropUnderscores (s : Text) : Text := s.filter (· ≠ '_')

/-- The value of a digit in any base up to 16. -/
def digitValue (c : Char) : Nat :=
  if c.isDigit then c.toNat - 48
  else if 'a' ≤ c ∧ c ≤ 'f' then c.toNat - 87
  else if 'A' ≤ c ∧ c ≤ 'F' then c.toNat - 55
  else 16

/-- The number of some digits in a base. -/
def natIn? (base : Nat) (s : Text) : Option Nat :=
  if isDigits (fun c => digitValue c < base) s then
    some ((dropUnderscores s).foldl (fun n c => n * base + digitValue c) 0)
  else none

/-- A sign, and what follows it. -/
def splitSign : Text → Option Char × Text
  | '+' :: rest => (some '+', rest)
  | '-' :: rest => (some '-', rest)
  | s => (none, s)

/-- Whether a text is a whole part: digits without a leading zero, unless it is just that. -/
def isWhole (s : Text) : Bool :=
  isDigits Char.isDigit s && (s.head? != some '0' || s.length == 1)

/-- An integer of at most 128 bits. A base goes without a sign. -/
def integer? (s : Text) : Option Int :=
  let value := match s with
    | '0' :: 'x' :: rest => (natIn? 16 rest).map Int.ofNat
    | '0' :: 'o' :: rest => (natIn? 8 rest).map Int.ofNat
    | '0' :: 'b' :: rest => (natIn? 2 rest).map Int.ofNat
    | _ =>
      let (sign, digits) := splitSign s
      if isWhole digits then
        (natIn? 10 digits).map fun n => if sign = some '-' then -(n : Int) else n
      else none
  match value with
  | some i =>
    if (-i).toNat ≤ Nat.pow 2 127 && i.toNat < Nat.pow 2 128 then some i else none
  | none => none

/-- Whether a text is a number that is no integer: with a fraction, with an exponent, or one of the
special values. It may not be too large. -/
def isReal (s : Text) : Bool :=
  let (_, magnitude) := splitSign s
  if magnitude = "inf".toList ∨ magnitude = "nan".toList then true
  else
    let whole := magnitude.takeWhile fun (c : Char) => c.isDigit || c == '_'
    let rest := magnitude.drop whole.length
    let (fraction, rest) := match rest with
      | '.' :: more =>
        let part := more.takeWhile fun (c : Char) => c.isDigit || c == '_'
        (some part, more.drop part.length)
      | _ => (none, rest)
    let exponent := match rest with
      | e :: more => if e = 'e' ∨ e = 'E' then some (splitSign more).2 else some []
      | [] => none
    isWhole whole && fraction.all (isDigits Char.isDigit) && exponent.all (isDigits Char.isDigit) &&
      (fraction.isSome || exponent.isSome) &&
      ((Decimal.ofText? (dropUnderscores magnitude)).bind Decimal.nearest?).isSome

/-! ## Dates and times -/

/-- A number of exactly so many digits at the start of a text, and what follows. -/
def fixed? (count : Nat) (s : Text) : Option (Nat × Text) :=
  let digits := s.take count
  if digits.length = count ∧ digits.all Char.isDigit then
    some (Decimal.natOfDigits digits, s.drop count)
  else none

/-- A number within bounds. -/
def within? (low high : Nat) (r : Nat × Text) : Option (Nat × Text) :=
  if low ≤ r.1 && r.1 ≤ high then some r else none

/-- A given character at the start of a text. -/
def expect? (c : Char) : Text → Option Text
  | d :: rest => if d = c then some rest else none
  | [] => none

def daysOf (year month : Nat) : Nat :=
  if month = 2 then
    (if (year % 4 = 0 ∧ year % 100 ≠ 0) ∨ year % 400 = 0 then 29 else 28)
  else if month = 4 ∨ month = 6 ∨ month = 9 ∨ month = 11 then 30
  else 31

/-- What follows a date. -/
def afterDate? (s : Text) : Option Text := do
  let (year, s) ← fixed? 4 s
  let s ← expect? '-' s
  let (month, s) ← (fixed? 2 s).bind (within? 1 12)
  let s ← expect? '-' s
  let (_, s) ← (fixed? 2 s).bind (within? 1 (daysOf year month))
  return s

/-- What follows a time of day. Seconds may be left out. -/
def afterTime? (s : Text) : Option Text := do
  let (_, s) ← (fixed? 2 s).bind (within? 0 23)
  let s ← expect? ':' s
  let (_, s) ← (fixed? 2 s).bind (within? 0 59)
  match expect? ':' s with
  | none => return s
  | some s =>
    let (_, s) ← (fixed? 2 s).bind (within? 0 60)
    match expect? '.' s with
    | none => return s
    | some s =>
      let digits := s.takeWhile Char.isDigit
      if digits.isEmpty then none
      return s.drop digits.length

/-- Whether a text is the offset of a time, or empty. -/
def isOffset : Text → Bool
  | [] => true
  | c :: rest =>
    if c = 'Z' ∨ c = 'z' then rest.isEmpty
    else if c = '+' ∨ c = '-' then
      (do
        let (_, s) ← (fixed? 2 rest).bind (within? 0 23)
        let s ← expect? ':' s
        let (_, s) ← (fixed? 2 s).bind (within? 0 59)
        return s) == some []
    else false

/-- Whether a text is a date, a time, or both, the latter with an optional offset. -/
def isMoment (s : Text) : Bool :=
  match afterDate? s with
  | some [] => true
  | some (c :: rest) =>
    (c == 'T' || c == 't' || c == ' ') && (afterTime? rest).any isOffset
  | none => afterTime? s == some []

/-! ## Words -/

/-- What a word means that is no string. -/
def scalar? (s : Text) : Option Value :=
  if s = "true".toList then some (.bool true)
  else if s = "false".toList then some (.bool false)
  else
    match integer? s with
    | some i => some (.integer i)
    | none => if isReal s then some .real else if isMoment s then some .moment else none

end RuleAudit.Toml
