import Mathlib.Data.Nat.Digits.Defs
import RuleAudit.Proofs.Text.Pieces

/-!
# Numbers in texts

A written number tells its value, and it ends before the first character that is no digit.
-/

namespace RuleAudit.Text

/-- No two numbers are written alike. -/
theorem ofNat_injective : Function.Injective ofNat := by
  intro n m h
  have hread : Nat.ofDigitChars 10 (ofNat n) 0 = Nat.ofDigitChars 10 (ofNat m) 0 := by rw [h]
  simpa only [ofNat, Nat.ofDigitChars_ten_toDigits] using hread

theorem not_mem_ofNat {c : Char} (hc : c.isDigit = false) (n : Nat) : c ∉ ofNat n := by
  intro h
  have hdigit := Nat.isDigit_of_mem_toDigits (by decide) (by decide) h
  simp [hc] at hdigit

/-- **A number before a separator** and what follows can be told from the text. -/
theorem ofNat_append_inj {c : Char} (hc : c.isDigit = false) {n n' : Nat} {s s' : Text}
    (h : ofNat n ++ c :: s = ofNat n' ++ c :: s') : n = n' ∧ s = s' := by
  have hsplit := congrArg (splitFirst? c) h
  rw [splitFirst?_append (not_mem_ofNat hc n), splitFirst?_append (not_mem_ofNat hc n')] at hsplit
  obtain ⟨hn, hs⟩ := Prod.mk.inj (Option.some.inj hsplit)
  exact ⟨ofNat_injective hn, hs⟩

end RuleAudit.Text
