import RuleAudit.Text.Basic
import Mathlib.Data.List.Basic

/-!
# Pieces of a text

Splitting undoes joining when no piece contains the separator, and a text that contains neither the
separator nor the word to be replaced is left as it is.
-/

namespace RuleAudit.Text

/-! ## Splitting -/

section Splitting

variable {α : Type} [DecidableEq α]

/-- The pieces are those of the library. -/
theorem splitOn_eq_splitOn (sep : α) (s : List α) : splitOn sep s = List.splitOn sep s := by
  induction s with
  | nil => rw [splitOn, List.splitOn_nil]
  | cons c rest ih =>
    rw [splitOn, List.splitOn_cons_eq_if_modifyHead, ih]
    by_cases hc : c = sep
    · simp [hc]
    · cases hrest : List.splitOn sep rest with
      | nil => exact absurd hrest (List.splitOn_ne_nil sep rest)
      | cons piece pieces => simp [hc]

theorem splitOn_of_not_mem {sep : α} {s : List α} (h : sep ∉ s) : splitOn sep s = [s] := by
  rw [splitOn_eq_splitOn, List.splitOn_eq_singleton h]

/-- A separator ends one piece and starts the next one. -/
theorem splitOn_append_cons (sep : α) (s t : List α) :
    splitOn sep (s ++ sep :: t) = splitOn sep s ++ splitOn sep t := by
  rw [splitOn_eq_splitOn, splitOn_eq_splitOn, splitOn_eq_splitOn]
  exact List.splitOnP_append_cons s t (beq_self_eq_true sep)

/-- There is one piece more than there are separators. -/
theorem length_splitOn (sep : α) (s : List α) : (splitOn sep s).length = s.count sep + 1 := by
  induction s with
  | nil => rfl
  | cons c rest ih =>
    rw [splitOn]
    split
    next hc => simp [ih, hc]
    next hc =>
      cases hrest : splitOn sep rest with
      | nil => exact absurd hrest (splitOn_ne_nil sep rest)
      | cons piece pieces => simpa [hrest, hc] using ih

/-- The first piece is not empty if the text does not begin with the separator. -/
theorem ne_nil_of_splitOn_cons {sep : α} {s first : List α} {rest : List (List α)} (hne : s ≠ [])
    (hhead : s.head? ≠ some sep) (h : splitOn sep s = first :: rest) : first ≠ [] := by
  obtain ⟨c, more, rfl⟩ := List.exists_cons_of_ne_nil hne
  rintro rfl
  rw [splitOn, if_neg (by simpa using hhead)] at h
  split at h <;> simp at h

/-- After the first piece comes a separator before each piece. -/
theorem intercalate_cons_eq {β : Type} (sep : β) (first : List β) (rest : List (List β)) :
    List.intercalate [sep] (first :: rest) = first ++ rest.flatMap fun piece => sep :: piece := by
  induction rest generalizing first with
  | nil => simp
  | cons piece rest ih =>
    rw [List.intercalate_cons_cons, ih piece]
    simp

/-- A text is determined by its pieces. -/
theorem splitOn_injective (sep : α) : Function.Injective (splitOn sep) := by
  intro s t h
  rw [← intercalate_splitOn sep s, h, intercalate_splitOn]

/-- Joined pieces without the separator are found again. -/
theorem splitOn_intercalate {sep : α} {pieces : List (List α)} (hne : pieces ≠ [])
    (h : ∀ piece ∈ pieces, sep ∉ piece) :
    splitOn sep (List.intercalate [sep] pieces) = pieces := by
  rw [splitOn_eq_splitOn, List.splitOn_intercalate sep h hne]

theorem not_mem_of_mem_splitOn {sep : α} {s piece : List α} (h : piece ∈ splitOn sep s) :
    sep ∉ piece := by
  induction s generalizing piece with
  | nil =>
    rw [splitOn, List.mem_singleton] at h
    simp [h]
  | cons c rest ih =>
    rw [splitOn] at h
    split at h
    · rcases List.mem_cons.1 h with rfl | h
      · simp
      · exact ih h
    next hc =>
      cases hs : splitOn sep rest with
      | nil => exact absurd hs (splitOn_ne_nil sep rest)
      | cons p ps =>
        rw [hs] at h ih
        rcases List.mem_cons.1 h with rfl | h
        · have hp := ih List.mem_cons_self
          simpa [Ne.symm hc] using hp
        · exact ih (List.mem_cons_of_mem _ h)

/-- Each piece stands in the text. -/
theorem infix_of_mem_splitOn {sep : α} {s piece : List α} (h : piece ∈ splitOn sep s) :
    piece <:+: s := by
  have hs := intercalate_splitOn sep s
  cases hpieces : splitOn sep s with
  | nil => exact absurd hpieces (splitOn_ne_nil sep s)
  | cons first rest =>
    rw [hpieces, intercalate_cons_eq] at hs
    rw [hpieces] at h
    rw [← hs]
    obtain rfl | h := List.mem_cons.1 h
    · exact (List.prefix_append _ _).isInfix
    · have hcut : sep :: piece <:+: rest.flatMap fun piece => sep :: piece :=
        List.infix_of_mem_flatten (List.mem_map_of_mem h)
      exact ((List.suffix_cons sep piece).isInfix.trans hcut).trans (List.suffix_append _ _).isInfix

theorem mem_of_mem_splitOn {sep : α} {s piece : List α} (h : piece ∈ splitOn sep s) {c : α}
    (hc : c ∈ piece) : c ∈ s := (infix_of_mem_splitOn h).subset hc

end Splitting

/-- The text with the line of index `i` replaced. -/
def setLine (text : Text) (i : Nat) (line : Text) : Text :=
  List.intercalate ['\n'] ((splitOn '\n' text).set i line)

/-- Replacing a line by a line leaves the others where they are. -/
theorem splitOn_setLine (text : Text) (i : Nat) {line : Text} (h : '\n' ∉ line) :
    splitOn '\n' (setLine text i line) = (splitOn '\n' text).set i line := by
  refine splitOn_intercalate ?_ ?_
  · simp [List.set_eq_nil_iff]
  · intro piece hpiece
    rcases List.mem_or_eq_of_mem_set hpiece with hpiece | rfl
    · exact not_mem_of_mem_splitOn hpiece
    · exact h

/-- What stands between two parts of a text is a line of it. -/
structure LineBetween (before line after : Text) : Prop where
  starts : before = [] ∨ before.getLast? = some '\n'
  single : '\n' ∉ line
  stops : after = [] ∨ after.head? = some '\n'

/-- The lines before a line are as many as the newlines. -/
theorem LineBetween.exists_splitOn {before line after : Text} (h : LineBetween before line after) :
    ∃ upper lower : List Text, upper.length = before.count '\n' ∧
      ∀ line' : Text, '\n' ∉ line' →
        splitOn '\n' (before ++ line' ++ after) = upper ++ line' :: lower := by
  have hlower : ∃ lower : List Text, ∀ line' : Text, '\n' ∉ line' →
      splitOn '\n' (line' ++ after) = line' :: lower := by
    rcases h.stops with rfl | hafter
    · refine ⟨[], fun line' hline => ?_⟩
      rw [List.append_nil, splitOn_of_not_mem hline]
    · obtain ⟨rest, rfl⟩ := List.head?_eq_some_iff.1 hafter
      refine ⟨splitOn '\n' rest, fun line' hline => ?_⟩
      rw [splitOn_append_cons, splitOn_of_not_mem hline, List.singleton_append]
  obtain ⟨lower, hlower⟩ := hlower
  rcases h.starts with rfl | hbefore
  · exact ⟨[], lower, rfl, fun line' hline => hlower line' hline⟩
  · obtain ⟨start, rfl⟩ := List.getLast?_eq_some_iff.1 hbefore
    refine ⟨splitOn '\n' start, lower, by simp [length_splitOn], fun line' hline => ?_⟩
    rw [← hlower line' hline, ← splitOn_append_cons]
    simp

/-! ## Lines -/

/-- The text is cut after each of its newlines: they stand at the ends of the lines only, and only the
last line may lack one. -/
structure HasLines (s : Text) (lines : List Text) : Prop where
  flatten_eq : lines.flatten = s
  ne_nil : ∀ line ∈ lines, line ≠ []
  newline_last : ∀ line ∈ lines, '\n' ∉ line.dropLast
  ended : ∀ line ∈ lines.dropLast, line.getLast? = some '\n'

/-- A line of its own in front. -/
theorem HasLines.newline {s : Text} {lines : List Text} (h : HasLines s lines) :
    HasLines ('\n' :: s) (['\n'] :: lines) where
  flatten_eq := by simp [h.flatten_eq]
  ne_nil := List.forall_mem_cons.2 ⟨by simp, h.ne_nil⟩
  newline_last := List.forall_mem_cons.2 ⟨by simp, h.newline_last⟩
  ended := by
    intro line hline
    cases lines with
    | nil => simp at hline
    | cons first later =>
      rcases List.mem_cons.1 hline with rfl | hline
      · rfl
      · exact h.ended line hline

/-- A character that joins the first line. -/
theorem HasLines.char {s line : Text} {lines : List Text} (h : HasLines s (line :: lines)) {c : Char}
    (hc : c ≠ '\n') : HasLines (c :: s) ((c :: line) :: lines) := by
  have hline : line ≠ [] := h.ne_nil line List.mem_cons_self
  obtain ⟨hfirst, hlater⟩ := List.forall_mem_cons.1 h.newline_last
  refine ⟨by simp [← h.flatten_eq], ?_, ?_, ?_⟩
  · exact List.forall_mem_cons.2 ⟨by simp, (List.forall_mem_cons.1 h.ne_nil).2⟩
  · refine List.forall_mem_cons.2 ⟨?_, hlater⟩
    rw [List.dropLast_cons_of_ne_nil hline, List.mem_cons, not_or]
    exact ⟨hc.symm, hfirst⟩
  · intro ended hended
    cases lines with
    | nil => simp at hended
    | cons second later =>
      rcases List.mem_cons.1 hended with rfl | hended
      · rw [List.getLast?_cons_of_ne_nil hline]
        exact h.ended line List.mem_cons_self
      · exact h.ended ended (List.mem_cons_of_mem _ hended)

/-- **The lines that keep their newlines** are the text, cut after each newline. -/
theorem hasLines_linesKept (s : Text) : HasLines s (linesKept s) := by
  induction s with
  | nil => exact ⟨rfl, by simp [linesKept], by simp [linesKept], by simp [linesKept]⟩
  | cons c rest ih =>
    rw [linesKept]
    split
    next hc => exact hc ▸ ih.newline
    next hc =>
      split
      next hlines =>
        have hrest : rest = [] := by rw [← flatten_linesKept rest, hlines, List.flatten_nil]
        exact ⟨by simp [hrest], by simp, by simp, by simp⟩
      next line lines hlines => exact (hlines ▸ ih).char hc

/-- A piece behind the last of the lines that keep their newlines is empty. -/
theorem eq_nil_of_length_linesKept_le {s line : Text} {i : Nat} (hi : (linesKept s).length ≤ i)
    (hline : (splitOn '\n' s)[i]? = some line) : line = [] := by
  induction s generalizing i line with
  | nil =>
    have hmem : line ∈ splitOn '\n' [] := List.mem_of_getElem? hline
    simpa [splitOn] using hmem
  | cons c rest ih =>
    rw [linesKept] at hi
    rw [splitOn] at hline
    split at hi
    next hc =>
      rw [if_pos hc] at hline
      cases i with
      | zero => simp at hi
      | succ i => exact ih (by simpa using hi) (by simpa using hline)
    next hc =>
      rw [if_neg hc] at hline
      cases i with
      | zero => split at hi <;> simp at hi
      | succ i =>
        -- Behind its first line the text has the pieces of the rest.
        have hlater : (splitOn '\n' rest)[i + 1]? = some line := by
          split at hline
          next hnone => exact absurd hnone (splitOn_ne_nil '\n' rest)
          next piece pieces hpieces => simpa [hpieces] using hline
        refine ih ?_ hlater
        split at hi
        next hnone => simp [hnone]
        next first lines hlines => simpa [hlines] using hi

/-! ## Cutting -/

section Cutting

variable {α : Type} [DecidableEq α]

theorem splitFirst?_append {sep : α} {before : List α} (h : sep ∉ before) (after : List α) :
    splitFirst? sep (before ++ sep :: after) = some (before, after) := by
  induction before with
  | nil => simp [splitFirst?]
  | cons c before ih =>
    rw [List.mem_cons, not_or] at h
    rw [List.cons_append, splitFirst?, if_neg (Ne.symm h.1), ih h.2]
    rfl

theorem eq_append_of_splitFirst? {sep : α} {s before after : List α}
    (h : splitFirst? sep s = some (before, after)) : s = before ++ sep :: after := by
  induction s generalizing before with
  | nil => cases h
  | cons d rest ih =>
    rw [splitFirst?] at h
    split at h
    next hd =>
      simp only [Option.some.injEq, Prod.mk.injEq] at h
      obtain ⟨rfl, rfl⟩ := h
      rw [hd, List.nil_append]
    · obtain ⟨⟨before', after'⟩, hrest, he⟩ := Option.map_eq_some_iff.1 h
      simp only [Prod.mk.injEq] at he
      obtain ⟨rfl, rfl⟩ := he
      rw [ih hrest, List.cons_append]

theorem mem_of_splitFirst? {sep : α} {s before after : List α}
    (h : splitFirst? sep s = some (before, after)) {c : α} (hc : c ∈ after) : c ∈ s := by
  simp [eq_append_of_splitFirst? h, hc]

end Cutting

/-! ## Replacing -/

/-- Nothing is replaced where the word does not occur. -/
theorem replaceAll_eq_self {old new s : Text} (hold : old ≠ []) (h : hasInfix old s = false) :
    replaceAll old new s = s := by
  rw [replaceAll, if_neg (by simpa using hold)]
  induction s with
  | nil => rfl
  | cons c rest ih =>
    rw [hasInfix, Bool.or_eq_false_iff] at h
    rw [replaceFrom, if_neg (by simp [h.1]), ih h.2]

theorem mem_of_mem_replaceAll_nil {old s : Text} (hold : old ≠ []) {c : Char}
    (h : c ∈ replaceAll old [] s) : c ∈ s := by
  suffices hfrom : ∀ skip, c ∈ replaceFrom old [] skip s → c ∈ s by
    rw [replaceAll, if_neg (by simpa using hold)] at h
    exact hfrom 0 h
  clear h
  induction s with
  | nil => intro skip h; cases skip <;> exact h
  | cons d rest ih =>
    intro skip h
    cases skip with
    | zero =>
      rw [replaceFrom] at h
      split at h
      · exact List.mem_cons_of_mem _ (ih _ h)
      · rcases List.mem_cons.1 h with rfl | h
        · exact List.mem_cons_self
        · exact List.mem_cons_of_mem _ (ih _ h)
    | succ skip => exact List.mem_cons_of_mem _ (ih _ h)

/-- One character is replaced wherever it stands. -/
theorem replaceAll_singleton (c : Char) (new s : Text) :
    replaceAll [c] new s = s.flatMap fun d => if d = c then new else [d] := by
  rw [replaceAll, if_neg (by simp)]
  induction s with
  | nil => rfl
  | cons d rest ih =>
    rw [List.flatMap_cons, ← ih, replaceFrom]
    by_cases hd : d = c
    · rw [if_pos (by simp [hd]), if_pos hd]
      rfl
    · rw [if_neg (by simpa using Ne.symm hd), if_neg hd]
      rfl

/-- What is put before each separator ends up in the pieces, save for the last one. -/
theorem splitOn_replaceAll_sep {sep : Char} {extra : Text} (h : sep ∉ extra) (s : Text) :
    ∃ init last, splitOn sep s = init ++ [last] ∧
      splitOn sep (replaceAll [sep] (extra ++ [sep]) s) = init.map (· ++ extra) ++ [last] := by
  rw [replaceAll_singleton]
  induction s with
  | nil => exact ⟨[], [], rfl, rfl⟩
  | cons c rest ih =>
    obtain ⟨init, last, hrest, hnew⟩ := ih
    by_cases hc : c = sep
    · refine ⟨[] :: init, last, ?_, ?_⟩
      · rw [splitOn, if_pos hc, hrest, List.cons_append]
      · rw [List.flatMap_cons, if_pos hc, List.append_assoc, List.singleton_append,
          splitOn_append_cons, splitOn_of_not_mem h, hnew]
        simp
    · rw [List.flatMap_cons, if_neg hc, List.singleton_append, splitOn, if_neg hc, hrest, splitOn,
        if_neg hc, hnew]
      -- The character joins the first piece, which is the last one if no separator follows.
      cases init with
      | nil => exact ⟨[], c :: last, rfl, rfl⟩
      | cons first init => exact ⟨(c :: first) :: init, last, rfl, rfl⟩

end RuleAudit.Text
