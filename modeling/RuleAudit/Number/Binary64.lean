/-!
# Binary floating-point numbers

Finite numbers with 53 significant bits and binary exponents from -1074 to 971, computed with in
exact integer arithmetic and rounded to the nearest number, a tie to the even one.
-/

namespace RuleAudit

/-- The finite number `± mantissa · 2 ^ exponent`. Normal numbers have a mantissa from `2 ^ 52` up
to `2 ^ 53`; the others have the least exponent. -/
structure Binary64 where
  /-- Whether the sign is a minus; zero has both signs. -/
  negative : Bool
  mantissa : Nat
  /-- The weight of the last bit, as a power of two. -/
  exponent : Int
  deriving DecidableEq, Repr, Inhabited

namespace Binary64

/-- The exponent of the numbers nearest to zero. -/
def leastExponent : Int := -1074

/-- The exponent of the largest numbers. -/
def greatestExponent : Int := 971

/-- Zero with a sign. -/
def zero (negative : Bool) : Binary64 := ⟨negative, 0, leastExponent⟩

/-- Whether the number is a zero of either sign. -/
def isZero (x : Binary64) : Bool := x.mantissa == 0

/-- The number with the opposite sign. -/
def neg (x : Binary64) : Binary64 := { x with negative := !x.negative }

/-- The magnitude as a quotient of naturals. -/
def quotient (x : Binary64) : Nat × Nat :=
  if 0 ≤ x.exponent then (x.mantissa * Nat.pow 2 x.exponent.toNat, 1)
  else (x.mantissa, Nat.pow 2 (-x.exponent).toNat)

/-- A quotient divided by a power of two, as a quotient. -/
def scaled (num den : Nat) (exponent : Int) : Nat × Nat :=
  if 0 ≤ exponent then (num, den * Nat.pow 2 exponent.toNat)
  else (num * Nat.pow 2 (-exponent).toNat, den)

/-- The nearest natural to a quotient, a tie to the even one. -/
def roundQuotient (num den : Nat) : Nat :=
  let q := num / den
  let twice := 2 * (num % den)
  if twice < den then q
  else if den < twice then q + 1
  else q + q % 2

/-- The number nearest to `num / den`; none if that is too large for any number. -/
def nearest (num den : Nat) : Option Binary64 :=
  if num == 0 then some (zero false)
  else
    let guess : Int := (num.log2 : Int) - (den.log2 : Int) - 52
    let (n, d) := scaled num den guess
    let unbounded := if n < d * Nat.pow 2 52 then guess - 1 else guess
    let exponent := max unbounded leastExponent
    let (n, d) := scaled num den exponent
    let mantissa := roundQuotient n d
    let (mantissa, exponent) :=
      if mantissa == Nat.pow 2 53 then (Nat.pow 2 52, exponent + 1) else (mantissa, exponent)
    if greatestExponent < exponent then none else some ⟨false, mantissa, exponent⟩

/-- The number nearest to a natural. -/
def ofNat? (n : Nat) : Option Binary64 := nearest n 1

/-- The product, rounded; none if it is too large. -/
def mul (x y : Binary64) : Option Binary64 :=
  let (n, d) := x.quotient
  let (n', d') := y.quotient
  (nearest (n * n') (d * d')).map fun z => { z with negative := x.negative != y.negative }

/-- The quotient by a number other than zero, rounded; none if it is too large. -/
def div (x y : Binary64) : Option Binary64 :=
  let (n, d) := x.quotient
  let (n', d') := y.quotient
  (nearest (n * d') (d * n')).map fun z => { z with negative := x.negative != y.negative }

/-- The number nearest to a power of ten that is in range. -/
def tenPower (k : Nat) : Binary64 := (nearest (Nat.pow 10 k) 1).getD (zero false)

end Binary64

end RuleAudit
