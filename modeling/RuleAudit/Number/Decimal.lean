import RuleAudit.Number.Binary64
import RuleAudit.Text.Basic

/-!
# Decimal numbers

Numbers as documents write them, in digits and a power of ten, and the binary numbers nearest to them.
-/

namespace RuleAudit

/-- The number `digits · 10 ^ weight`. -/
structure Decimal where
  digits : Nat
  weight : Int
  deriving DecidableEq, Repr

namespace Decimal

/-- The number of some decimal digits. -/
def natOfDigits (s : Text) : Nat := s.foldl (fun n c => n * 10 + (c.toNat - 48)) 0

/-- The exponent of a text, after its mark: an optional sign and at least one digit. -/
def exponent? (s : Text) : Option Int :=
  let (down, digits) := match s with
    | '-' :: rest => (true, rest)
    | '+' :: rest => (false, rest)
    | _ => (false, s)
  if digits.isEmpty || !digits.all Char.isDigit then none
  else some (if down then -(natOfDigits digits : Int) else natOfDigits digits)

/-- The decimal of a text: digits with an optional point among or beside them, and an optional
exponent. -/
def ofText? (s : Text) : Option Decimal :=
  let whole := s.takeWhile Char.isDigit
  let s := s.drop whole.length
  let (part, s) := match s with
    | '.' :: rest => (rest.takeWhile Char.isDigit, rest.dropWhile Char.isDigit)
    | _ => ([], s)
  let digits := natOfDigits (whole ++ part)
  if whole.isEmpty && part.isEmpty then none
  else
    match s with
    | [] => some ⟨digits, -(part.length : Int)⟩
    | e :: rest =>
      if e = 'e' ∨ e = 'E' then
        (exponent? rest).map fun x => ⟨digits, x - (part.length : Int)⟩
      else none

/-- The binary number nearest to a decimal; none if that is too large for any number. Far outside of
the range the result is known without computing it. -/
def nearest? (d : Decimal) : Option Binary64 :=
  let leading : Int := ((Nat.toDigits 10 d.digits).length : Int) + d.weight
  if d.digits = 0 ∨ leading < -400 then some (Binary64.zero false)
  else if 400 < leading then none
  else if 0 ≤ d.weight then Binary64.nearest (d.digits * Nat.pow 10 d.weight.toNat) 1
  else Binary64.nearest d.digits (Nat.pow 10 (-d.weight).toNat)

end Decimal

end RuleAudit
