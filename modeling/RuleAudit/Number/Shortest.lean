import RuleAudit.Number.Binary64
import RuleAudit.Text.Basic

/-!
# Shortest decimal text

A number is written with the fewest decimal digits that read back as the same number and, among
texts of that length, with the nearest one.
-/

namespace RuleAudit.Binary64

/-- The interval of reals that round to a positive number, over a common denominator. -/
structure Neighbourhood where
  value : Nat
  low : Nat
  high : Nat
  unit : Nat
  /-- Whether the midpoints round to the number. -/
  closed : Bool

/-- The reals that round to a positive number. Below a power of two the numbers lie twice as
dense. -/
def neighbourhood (x : Binary64) : Neighbourhood :=
  let (up, unit) :=
    if 0 ≤ x.exponent then (Nat.pow 2 x.exponent.toNat, 4)
    else (1, 4 * Nat.pow 2 (-x.exponent).toNat)
  let below := if x.mantissa == Nat.pow 2 52 && leastExponent < x.exponent then 1 else 2
  { value := 4 * x.mantissa * up
    low := (4 * x.mantissa - below) * up
    high := (4 * x.mantissa + 2) * up
    unit := unit
    closed := x.mantissa % 2 == 0 }

/-- Whether the grid point `digits · 10 ^ weight` rounds to the number. -/
def Neighbourhood.accepts (r : Neighbourhood) (digits : Nat) (weight : Int) : Bool :=
  let point := digits * r.unit * Nat.pow 10 weight.toNat
  let scale := Nat.pow 10 (-weight).toNat
  if r.closed then r.low * scale ≤ point && point ≤ r.high * scale
  else r.low * scale < point && point < r.high * scale

/-- The least exponent `k` with the value below `10 ^ k`. -/
def Neighbourhood.magnitude (r : Neighbourhood) : Int :=
  let guess : Int :=
    ((Nat.toDigits 10 r.value).length : Int) - ((Nat.toDigits 10 r.unit).length : Int)
  if r.value * Nat.pow 10 (-guess).toNat < r.unit * Nat.pow 10 guess.toNat then guess else guess + 1

/-- The nearest grid point of the given weight that rounds to the number, if there is one. -/
def Neighbourhood.hit (r : Neighbourhood) (weight : Int) : Option Nat :=
  let num := r.value * Nat.pow 10 (-weight).toNat
  let den := r.unit * Nat.pow 10 weight.toNat
  let low := num / den
  let near := roundQuotient num den
  let far := if near == low then low + 1 else low
  if r.accepts near weight then some near
  else if r.accepts far weight then some far
  else none

/-- The first grid, from coarse to fine, with a point that rounds to the number. -/
def Neighbourhood.search (r : Neighbourhood) (magnitude : Int) : Nat → Nat → Nat × Int
  | count, 0 => (r.value / r.unit, magnitude - count)
  | count, fuel + 1 =>
    match r.hit (magnitude - count) with
    | some digits => (digits, magnitude - count)
    | none => r.search magnitude (count + 1) fuel

/-- The digits of a positive number as one natural, and the power of ten of the last digit. -/
def decimal (x : Binary64) : Nat × Int :=
  let r := x.neighbourhood
  r.search r.magnitude 1 17

/-- Digits with a point, for a last digit of weight `10 ^ weight`. -/
def positional (digits : Text) (weight : Int) : Text :=
  if 0 ≤ weight then digits ++ List.replicate weight.toNat '0' ++ ['.', '0']
  else
    let places := (-weight).toNat
    let padded := List.replicate (places + 1 - digits.length) '0' ++ digits
    padded.take (padded.length - places) ++ '.' :: padded.drop (padded.length - places)

/-- Digits with an exponent: a point after the first digit if there are more, then the signed
exponent of that first digit. -/
def exponential (digits : Text) (leading : Int) : Text :=
  let sign := if leading < 0 then '-' else '+'
  let tail := 'e' :: sign :: Text.ofNat leading.natAbs
  match digits with
  | [] => tail
  | [d] => d :: tail
  | d :: more => d :: '.' :: more ++ tail

/-- A minus for a negative number. -/
def signed (x : Binary64) (magnitude : Text) : Text :=
  if x.negative then '-' :: magnitude else magnitude

/-- The shortest text, positional when the first digit weighs `10 ^ -5` to `10 ^ 15`. -/
def text (x : Binary64) : Text :=
  if x.isZero then x.signed ['0', '.', '0']
  else
    let (digits, weight) := x.decimal
    let digits := Text.ofNat digits
    let leading := weight + (digits.length : Int) - 1
    if -5 ≤ leading && leading ≤ 15 then x.signed (positional digits weight)
    else x.signed (exponential digits leading)

end RuleAudit.Binary64
