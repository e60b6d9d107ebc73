import Mathlib.Data.List.Infix
import RuleAudit.Proofs.Text.Pieces

/-!
# Removing a word from a text

A word is removed when each of its occurrences, found from the left, is replaced by nothing. What
is left are characters of the text in their order, and fewer of them if the word occurs. The removal
can put a new occurrence together, as the characters around a removed one become neighbours; it leaves
nothing behind of a word at the end of a text that did not contain it.
-/

namespace RuleAudit.Text

theorem hasInfix_iff {word s : Text} : hasInfix word s = true ↔ word <:+: s := by
  induction s with
  | nil => simp [hasInfix]
  | cons c rest ih => simp [hasInfix, ih, List.infix_cons_iff]

/-- A word that ends in a character of its own does not reach into a text without that character. -/
theorem not_infix_append {init : Text} {last : Char} {s t : Text} (hs : ¬ init ++ [last] <:+: s)
    (ht : last ∉ t) : ¬ init ++ [last] <:+: s ++ t := by
  intro h
  obtain hs' | ht' | ⟨start, tail, hword, hstart, htail⟩ := List.infix_append_iff.1 h
  · exact hs hs'
  · exact ht (ht'.subset (by simp))
  · -- The part of the word that stands in `t` is empty, since otherwise it ends as the word does.
    obtain rfl | ⟨tail', last', rfl⟩ := tail.eq_nil_or_concat
    · rw [List.append_nil] at hword
      exact hs (hword ▸ hstart.isInfix)
    · rw [List.concat_eq_append, ← List.append_assoc] at hword
      obtain rfl : last = last' := by simpa using (List.append_inj' hword rfl).2
      exact ht (htail.subset (by simp))

/-! ## What is left -/

theorem removalFrom_sublist (word : Text) (skip : Nat) (s : Text) :
    (replaceFrom word [] skip s).Sublist s := by
  induction s generalizing skip with
  | nil => cases skip <;> exact .slnil
  | cons c rest ih =>
    cases skip with
    | zero =>
      rw [replaceFrom]
      split
      · exact (ih _).cons c
      · exact (ih 0).cons_cons c
    | succ skip => exact (ih skip).cons c

/-- What a removal leaves are characters of the text in their order. -/
theorem removal_sublist {word : Text} (hne : word ≠ []) (s : Text) :
    (replaceAll word [] s).Sublist s := by
  rw [replaceAll, if_neg (by simpa using hne)]
  exact removalFrom_sublist word 0 s

/-- The removal of a word that occurs makes the text shorter. -/
theorem length_removal_lt {word s : Text} (hne : word ≠ []) (h : hasInfix word s = true) :
    (replaceAll word [] s).length < s.length := by
  rw [replaceAll, if_neg (by simpa using hne)]
  induction s with
  | nil => exact absurd (by simpa [hasInfix] using h) hne
  | cons c rest ih =>
    rw [replaceFrom]
    split
    · have hle := (removalFrom_sublist word (word.length - 1) rest).length_le
      simp only [List.nil_append, List.length_cons]
      omega
    next hprefix =>
      have hrest : hasInfix word rest = true := by simpa [hasInfix, hprefix] using h
      simpa using ih hrest

/-! ## A word at the end -/

theorem replaceFrom_length_append (word new s t : Text) :
    replaceFrom word new s.length (s ++ t) = replaceFrom word new 0 t := by
  induction s with
  | nil => rfl
  | cons c rest ih => simpa [replaceFrom] using ih

/-- **A word at the end of a text** that does not contain it is removed without a trace. Its last
character stands nowhere else in it, so that no occurrence begins before the end of the text. -/
theorem removal_append_self {init : Text} {last : Char} (hlast : last ∉ init) {s : Text}
    (h : ¬ init ++ [last] <:+: s) : replaceAll (init ++ [last]) [] (s ++ (init ++ [last])) = s := by
  rw [replaceAll, if_neg (by simp)]
  induction s with
  | nil =>
    cases hword : init ++ [last] with
    | nil => simp at hword
    | cons c rest =>
      have hrest := replaceFrom_length_append (c :: rest) [] rest []
      rw [List.append_nil] at hrest
      simpa [replaceFrom] using hrest
  | cons c rest ih =>
    have hstart : ¬ init ++ [last] <+: c :: rest ++ init ++ [last] := by
      intro hprefix
      obtain heq | hprefix := List.prefix_concat_iff.1 hprefix
      · have hlen := congrArg List.length heq
        simp at hlen
        omega
      · exact not_infix_append h hlast hprefix.isInfix
    have hrest : ¬ init ++ [last] <:+: rest := fun hrest => h (List.infix_cons hrest)
    rw [List.cons_append, replaceFrom, if_neg (by simpa using hstart), ih hrest]

end RuleAudit.Text
