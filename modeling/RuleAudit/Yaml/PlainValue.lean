import RuleAudit.Number.Decimal

/-!
# What plain scalars mean

A scalar without quotes may mean null, a truth value or a number. The spellings are those of the core schema, and an
integer has to stay below a bound.
-/

namespace RuleAudit.Yaml

def isNull (s : Text) : Bool :=
  ["null".toList, "Null".toList, "NULL".toList, ['~']].contains s

/-- The truth value of a spelling. -/
def truth? (s : Text) : Option Bool :=
  if ["true".toList, "True".toList, "TRUE".toList].contains s then some true
  else if ["false".toList, "False".toList, "FALSE".toList].contains s then some false
  else none

/-! ## Integers -/

/-- The value of a digit in any base up to 16. -/
def digitIn? (base : Nat) (c : Char) : Option Nat :=
  let v :=
    if c.isDigit then c.toNat - 48
    else if 'a' ≤ c ∧ c ≤ 'f' then c.toNat - 87
    else if 'A' ≤ c ∧ c ≤ 'F' then c.toNat - 55
    else base
  if v < base then some v else none

/-- The number of at least one digit in a base, below a bound. -/
def naturalIn? (base bound : Nat) (digits : Text) : Option Nat :=
  if digits.isEmpty then none
  else
    match digits.foldlM (fun n c => (digitIn? base c).map (n * base + ·)) 0 with
    | some n => if n < bound then some n else none
    | none => none

/-- The base that a text starts with, and what follows it. -/
def baseMark? : Text → Option (Nat × Text)
  | '0' :: 'x' :: rest => some (16, rest)
  | '0' :: 'o' :: rest => some (8, rest)
  | '0' :: 'b' :: rest => some (2, rest)
  | _ => none

/-- Whether a text is a sign and digits of which the first is a zero that does not stand alone. -/
def hasLeadingZero (s : Text) : Bool :=
  let s := match s with
    | '-' :: rest | '+' :: rest => rest
    | _ => s
  match s with
  | '0' :: d :: rest => (d :: rest).all Char.isDigit
  | _ => false

/-- A number without a minus, below a bound: with a base mark or decimal. -/
def unsigned? (bound : Nat) (s : Text) : Option Nat :=
  let plain := match s with
    | '+' :: rest => rest
    | _ => s
  let marked := (baseMark? plain).bind fun (base, digits) => naturalIn? base bound digits
  match marked with
  | some n => some n
  | none => if hasLeadingZero s then none else naturalIn? 10 bound plain

/-- The magnitude of a number with a minus, at most a bound. -/
def negative? (bound : Nat) (s : Text) : Option Nat :=
  match s with
  | '-' :: rest =>
    let marked := (baseMark? rest).bind fun (base, digits) => naturalIn? base (bound + 1) digits
    match marked with
    | some n => some n
    | none => if hasLeadingZero s then none else naturalIn? 10 (bound + 1) rest
  | _ => none

/-! ## Other numbers -/

/-- A number that is not an integer. -/
inductive Real where
  | nan
  | infinite (negative : Bool)
  | finite (x : Binary64)
  deriving Repr

/-- Numbers are compared by value, so the two zeros are equal; nan is equal to itself. -/
def Real.same : Real → Real → Bool
  | .nan, .nan => true
  | .infinite a, .infinite b => a == b
  | .finite x, .finite y => (x.isZero && y.isZero) || x == y
  | _, _ => false

/-- A number that need not be an integer; one too large for any number is none. -/
def real? (s : Text) : Option Real :=
  let plain := match s with
    | '+' :: rest => rest
    | _ => s
  if (s.head? = some '+') && (plain.head? = some '+' || plain.head? = some '-') then none
  else if [".inf".toList, ".Inf".toList, ".INF".toList].contains plain then some (.infinite false)
  else if ["-.inf".toList, "-.Inf".toList, "-.INF".toList].contains s then some (.infinite true)
  else if [".nan".toList, ".NaN".toList, ".NAN".toList].contains s then some .nan
  else
    let (minus, magnitude) := match plain with
      | '-' :: rest => (true, rest)
      | _ => (false, plain)
    match Decimal.ofText? magnitude with
    | none => none
    | some d => d.nearest?.map fun x => .finite (if minus then x.neg else x)

end RuleAudit.Yaml
