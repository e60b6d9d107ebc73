import Mathlib.Data.List.DropRight
import RuleAudit.Proofs.Text.Pieces

/-!
# Trimmed texts

Trimming leaves a text without blanks at its ends, and leaves such a text alone. It takes away blanks
only, so it does not reach over a character that is no blank, and of the pieces of a text it changes the
first and the last at most.
-/

namespace RuleAudit.Text

/-- Neither the first nor the last character is a blank. -/
def Trimmed (s : Text) : Prop :=
  (∀ c ∈ s.head?, isBlank c = false) ∧ ∀ c ∈ s.getLast?, isBlank c = false

instance (s : Text) : Decidable (Trimmed s) :=
  @instDecidableAnd _ _ (Option.decidableForallMem _) (Option.decidableForallMem _)

theorem trimStart_eq_self_iff {s : Text} :
    trimStart s = s ↔ ∀ c ∈ s.head?, isBlank c = false := by
  cases s with
  | nil => simp [trimStart]
  | cons c rest =>
    rw [trimStart, List.dropWhile_cons]
    by_cases h : isBlank c = true
    · have hlen : (rest.dropWhile isBlank).length ≤ rest.length := List.length_dropWhile_le _ _
      have hne : rest.dropWhile isBlank ≠ c :: rest := by
        intro he
        rw [he, List.length_cons] at hlen
        omega
      simp [h, hne]
    · simp [h]

theorem trimEnd_eq (s : Text) : trimEnd s = s.rdropWhile isBlank := rfl

theorem trimEnd_eq_self_iff {s : Text} :
    trimEnd s = s ↔ ∀ c ∈ s.getLast?, isBlank c = false := by
  rw [trimEnd_eq, List.rdropWhile_eq_self_iff]
  constructor
  · intro h c hc
    obtain ⟨hne, rfl⟩ := List.mem_getLast?_eq_getLast hc
    simpa using h hne
  · intro h hne
    simpa using h _ (List.getLast?_eq_some_getLast hne)

/-- Trimming leaves no blank at either end. -/
theorem trimmed_trim (s : Text) : Trimmed (trim s) := by
  have hstart : ∀ c ∈ (trimStart s).head?, isBlank c = false :=
    trimStart_eq_self_iff.1 (List.dropWhile_idempotent isBlank s)
  constructor
  · intro c hc
    obtain ⟨rest, hrest⟩ := List.rdropWhile_prefix isBlank (trimStart s)
    refine hstart c ?_
    rw [← hrest]
    rw [trim, trimEnd_eq] at hc
    cases hd : (trimStart s).rdropWhile isBlank with
    | nil => simp [hd] at hc
    | cons d rest' => simpa [hd] using hc
  · exact trimEnd_eq_self_iff.1 (List.rdropWhile_idempotent isBlank _)

theorem trim_eq_self_iff {s : Text} : trim s = s ↔ Trimmed s := by
  constructor
  · intro h
    rw [← h]
    exact trimmed_trim s
  · rintro ⟨hstart, hend⟩
    rw [trim, trimStart_eq_self_iff.2 hstart, trimEnd_eq_self_iff.2 hend]

/-- A blank before a text is trimmed away. -/
theorem trim_cons_blank {c : Char} (h : isBlank c = true) (s : Text) : trim (c :: s) = trim s := by
  rw [trim, trim, trimStart, List.dropWhile_cons, if_pos h, trimStart]

/-! ## Blanks around a text -/

/-- Nothing but blanks. -/
def Blank (s : Text) : Prop := ∀ c ∈ s, isBlank c = true

instance (s : Text) : Decidable (Blank s) := List.decidableBAll (isBlank · = true) s

theorem blank_nil : Blank [] := by simp [Blank]

theorem Blank.not_mem {s : Text} (h : Blank s) {c : Char} (hc : isBlank c = false) : c ∉ s := by
  intro hmem
  simp [h c hmem] at hc

theorem trimStart_append {left : Text} (h : Blank left) (s : Text) :
    trimStart (left ++ s) = trimStart s :=
  List.dropWhile_append_of_pos h

theorem trimEnd_append {right : Text} (h : Blank right) (s : Text) :
    trimEnd (s ++ right) = trimEnd s := by
  rw [trimEnd, trimEnd, List.reverse_append]
  rw [List.dropWhile_append_of_pos fun c hc => h c (List.mem_reverse.1 hc)]

/-- **Blanks around a text** are trimmed away. -/
theorem trim_padded {left right : Text} (hleft : Blank left) (hright : Blank right) (s : Text) :
    trim (left ++ s ++ right) = trim s := by
  rw [trim, trim, List.append_assoc, trimStart_append hleft, trimStart, List.dropWhile_append,
    ← trimStart]
  by_cases hs : trimStart s = []
  · -- Without anything but blanks in the text, those on its right are dropped from the left.
    have hnil : right.dropWhile isBlank = [] := List.dropWhile_eq_nil_iff.2 hright
    rw [hs, hnil]
    rfl
  · rw [if_neg (by simpa using hs), trimEnd_append hright]

/-- Trimming takes blanks away and nothing else. -/
theorem exists_padding (s : Text) :
    ∃ left right, Blank left ∧ Blank right ∧ s = left ++ trim s ++ right := by
  refine ⟨s.takeWhile isBlank, (trimStart s).rtakeWhile isBlank, ?_, ?_, ?_⟩
  · intro c hc
    exact List.mem_takeWhile_imp hc
  · intro c hc
    exact List.mem_rtakeWhile_imp hc
  · rw [List.append_assoc, trim, trimEnd_eq, List.rdropWhile_append_rtakeWhile, trimStart,
      List.takeWhile_append_dropWhile]

/-- What trimming leaves stands in the text. -/
theorem isInfix_trim (s : Text) : trim s <:+: s := by
  obtain ⟨left, right, -, -, hs⟩ := exists_padding s
  exact ⟨left, right, hs.symm⟩

theorem mem_of_mem_trim {s : Text} {c : Char} (h : c ∈ trim s) : c ∈ s := (isInfix_trim s).subset h

theorem trim_trim (s : Text) : trim (trim s) = trim s := trim_eq_self_iff.2 (trimmed_trim s)

/-- Trimming leaves nothing of blanks, and something of anything else. -/
theorem trim_eq_nil_iff {s : Text} : trim s = [] ↔ Blank s := by
  constructor
  · intro h
    obtain ⟨left, right, hleft, hright, hs⟩ := exists_padding s
    rw [hs, h, List.append_nil]
    intro c hc
    rcases List.mem_append.1 hc with hc | hc
    · exact hleft c hc
    · exact hright c hc
  · intro h
    simpa using trim_padded h blank_nil []

theorem trim_trimEnd (s : Text) : trim (trimEnd s) = trim s := by
  have hblank : Blank (s.rtakeWhile isBlank) := fun c hc => List.mem_rtakeWhile_imp hc
  have hs : trimEnd s ++ s.rtakeWhile isBlank = s := List.rdropWhile_append_rtakeWhile
  simpa [hs] using (trim_padded blank_nil hblank (trimEnd s)).symm

/-- Trimming does not reach over a character that is no blank. -/
theorem trim_append_cons {c : Char} (h : isBlank c = false) (s t : Text) :
    trim (s ++ c :: t) = trimStart s ++ c :: trimEnd t := by
  have hstart : trimStart (s ++ c :: t) = trimStart s ++ c :: t := by
    rw [trimStart, List.dropWhile_append, ← trimStart]
    by_cases hs : trimStart s = []
    · simp [hs, h]
    · simp [hs]
  have hend : ∀ u : Text, trimEnd (u ++ c :: t) = u ++ c :: trimEnd t := by
    intro u
    rw [trimEnd, List.reverse_append, List.reverse_cons, List.append_assoc, List.dropWhile_append]
    by_cases ht : t.reverse.dropWhile isBlank = []
    · simp [trimEnd, ht, h]
    · simp [trimEnd, ht]
  rw [trim, hstart, hend]

theorem trim_cons {c : Char} (h : isBlank c = false) (s : Text) : trim (c :: s) = c :: trimEnd s :=
  trim_append_cons h [] s

/-! ## Trimmed pieces -/

/-- Blanks around a text only add to its first and to its last piece. -/
theorem map_trim_splitOn_padded {sep : Char} (hsep : isBlank sep = false) {left right : Text}
    (hleft : Blank left) (hright : Blank right) (s : Text) :
    (splitOn sep (left ++ s ++ right)).map trim = (splitOn sep s).map trim := by
  induction hn : s.length using Nat.strong_induction_on generalizing s left right with
  | _ n ih =>
    subst hn
    by_cases hmem : sep ∈ s
    · -- A separator leaves the blanks on the left to one part and those on the right to the other.
      obtain ⟨a, b, rfl⟩ := List.append_of_mem hmem
      have ha := ih a.length (by simp) hleft blank_nil a rfl
      have hb := ih b.length (by simp; omega) blank_nil hright b rfl
      have hcut : left ++ (a ++ sep :: b) ++ right = left ++ a ++ sep :: (b ++ right) := by simp
      rw [hcut, splitOn_append_cons, splitOn_append_cons, List.map_append, List.map_append]
      simpa using congrArg₂ (· ++ ·) ha hb
    · have hnot : sep ∉ left ++ s ++ right := by
        simp [hmem, hleft.not_mem hsep, hright.not_mem hsep]
      rw [splitOn_of_not_mem hnot, splitOn_of_not_mem hmem, List.map_singleton, List.map_singleton,
        trim_padded hleft hright]

/-- **Trimming before cutting** makes no difference to trimmed pieces. -/
theorem map_trim_splitOn_trim {sep : Char} (hsep : isBlank sep = false) (s : Text) :
    (splitOn sep (trim s)).map trim = (splitOn sep s).map trim := by
  obtain ⟨left, right, hleft, hright, hs⟩ := exists_padding s
  rw [← map_trim_splitOn_padded hsep hleft hright (trim s), ← hs]

end RuleAudit.Text
