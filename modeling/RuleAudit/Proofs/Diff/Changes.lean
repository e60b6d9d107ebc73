import Mathlib.Data.List.Basic
import RuleAudit.Diff.Unified
import RuleAudit.Proofs.Diff.Turns

/-!
# Changed regions of two lists

Two lists fall into a common stretch and changes, each followed by the next common stretch. The regions
that are read off a script are the changes of such a decomposition, each at its place in both lists.
-/

namespace RuleAudit

/-- A place where two lists differ, with the common stretch that follows. -/
structure Replacement (α : Type) where
  removed : List α
  inserted : List α
  kept : List α

variable {α : Type}

/-- The part of the old list up to the next change. -/
def Replacement.old (c : Replacement α) : List α := c.removed ++ c.kept

/-- The part of the new list up to the next change. -/
def Replacement.new (c : Replacement α) : List α := c.inserted ++ c.kept

/-- The lists fall into a common stretch and changes. No change is empty, and no two of them touch. -/
structure Decomposes (old new first : List α) (changes : List (Replacement α)) : Prop where
  old_eq : old = first ++ changes.flatMap Replacement.old
  new_eq : new = first ++ changes.flatMap Replacement.new
  nonempty : ∀ c ∈ changes, c.removed ≠ [] ∨ c.inserted ≠ []
  separated : ∀ c ∈ changes.dropLast, c.kept ≠ []

namespace Decomposes

theorem none : Decomposes ([] : List α) [] [] [] where
  old_eq := rfl
  new_eq := rfl
  nonempty := by simp
  separated := by simp

/-- One more common element in front. -/
theorem keep {old new first : List α} {changes : List (Replacement α)}
    (h : Decomposes old new first changes) (x : α) :
    Decomposes (x :: old) (x :: new) (x :: first) changes where
  old_eq := by rw [h.old_eq, List.cons_append]
  new_eq := by rw [h.new_eq, List.cons_append]
  nonempty := h.nonempty
  separated := h.separated

/-- One more change in front, before which `start` is common. -/
theorem change {old new kept : List α} {changes : List (Replacement α)}
    (h : Decomposes old new kept changes) (hkept : changes ≠ [] → kept ≠ [])
    (start : List α) {removed inserted : List α} (hne : removed ≠ [] ∨ inserted ≠ []) :
    Decomposes (start ++ (removed ++ old)) (start ++ (inserted ++ new)) start
      (⟨removed, inserted, kept⟩ :: changes) where
  old_eq := by simp [h.old_eq, Replacement.old]
  new_eq := by simp [h.new_eq, Replacement.new]
  nonempty := List.forall_mem_cons.2 ⟨hne, h.nonempty⟩
  separated := by
    by_cases hchanges : changes = []
    · simp [hchanges]
    · rw [List.dropLast_cons_of_ne_nil hchanges]
      exact List.forall_mem_cons.2 ⟨hkept hchanges, h.separated⟩

end Decomposes

/-! ## Regions -/

namespace Hunk

/-- The regions of some changes, of which the first has so many lines before it. -/
def ofChanges (oldStart newStart : Nat) : List (Replacement α) → List (Hunk α)
  | [] => []
  | c :: later =>
    ⟨oldStart, newStart, c.removed, c.inserted⟩ ::
      ofChanges (oldStart + c.old.length) (newStart + c.new.length) later

theorem ofChanges_eq_nil_iff {oldStart newStart : Nat} {changes : List (Replacement α)} :
    ofChanges oldStart newStart changes = [] ↔ changes = [] := by
  cases changes <;> simp [ofChanges]

/-- A region with more lines at its end. -/
def extend (h : Hunk α) (removed inserted : List α) : Hunk α :=
  ⟨h.oldStart, h.newStart, h.removed ++ removed, h.inserted ++ inserted⟩

@[simp] theorem extend_nil (h : Hunk α) : h.extend [] [] = h := by simp [extend]

theorem consTo_next (h : Hunk α) (later : List (Hunk α)) : h.next.consTo later = later := rfl

theorem consTo_of_ne_nil {h : Hunk α} (hne : h.removed ≠ [] ∨ h.inserted ≠ [])
    (later : List (Hunk α)) : h.consTo later = h :: later := by
  rw [consTo, if_neg]
  simp only [Bool.and_eq_true, List.isEmpty_iff]
  rintro ⟨hremoved, hinserted⟩
  exact hne.elim (· hremoved) (· hinserted)

/-- The rest of a script completes the region that is being read, then come a common stretch and the
regions of further changes. -/
theorem exists_gather_eq {steps : List Edit} {old new : List α} (h : Edit.Turns steps old new)
    (hunk : Hunk α) : ∃ removed inserted oldRest newRest kept changes,
      old = removed ++ oldRest ∧ new = inserted ++ newRest ∧
      Decomposes oldRest newRest kept changes ∧ (changes ≠ [] → kept ≠ []) ∧
      gather hunk steps old new = (hunk.extend removed inserted).consTo
        (ofChanges (hunk.oldStart + (hunk.removed ++ removed).length + kept.length)
          (hunk.newStart + (hunk.inserted ++ inserted).length + kept.length) changes) := by
  induction h generalizing hunk with
  | done => exact ⟨[], [], [], [], [], [], rfl, rfl, .none, by simp, by simp [gather, ofChanges]⟩
  | @keep steps old new x _ ih =>
    obtain ⟨removed, inserted, oldRest, newRest, kept, changes, rfl, rfl, hrest, hkept, hgather⟩ :=
      ih hunk.next
    rw [gather, List.tail_cons, List.tail_cons, hgather]
    by_cases hempty : removed = [] ∧ inserted = []
    · -- The region after the kept element is no region, so the common stretch goes on.
      obtain ⟨rfl, rfl⟩ := hempty
      refine ⟨[], [], _, _, x :: kept, changes, rfl, rfl, hrest.keep x, by simp, ?_⟩
      rw [extend_nil, consTo_next, extend_nil]
      simp only [next, start, List.append_nil, List.length_nil, List.length_cons, Nat.add_assoc,
        Nat.add_zero, Nat.add_comm 1]
    · have hne : removed ≠ [] ∨ inserted ≠ [] := by rwa [← not_and_or]
      refine ⟨[], [], _, _, [x], _, rfl, rfl, hrest.change hkept [x] hne, by simp, ?_⟩
      have hregion := consTo_of_ne_nil (h := hunk.next.extend removed inserted)
        (by simpa [extend, next, start] using hne)
      rw [hregion, extend_nil]
      simp only [ofChanges, extend, next, start, Replacement.old, Replacement.new, List.nil_append,
        List.append_nil, List.length_append, List.length_singleton, Nat.add_assoc]
  | remove x _ ih =>
    obtain ⟨removed, inserted, oldRest, newRest, kept, changes, rfl, rfl, hrest, hkept, hgather⟩ :=
      ih { hunk with removed := hunk.removed ++ [x] }
    refine ⟨x :: removed, inserted, oldRest, newRest, kept, changes, rfl, rfl, hrest, hkept, ?_⟩
    simpa [gather, extend] using hgather
  | insert y _ ih =>
    obtain ⟨removed, inserted, oldRest, newRest, kept, changes, rfl, rfl, hrest, hkept, hgather⟩ :=
      ih { hunk with inserted := hunk.inserted ++ [y] }
    refine ⟨removed, y :: inserted, oldRest, newRest, kept, changes, rfl, rfl, hrest, hkept, ?_⟩
    simpa [gather, extend] using hgather

/-- **The regions of a script** are the changes of a decomposition of the two lists, each after as many
lines as stand before it. -/
theorem exists_ofScript_eq {steps : List Edit} {old new : List α} (h : Edit.Turns steps old new) :
    ∃ first changes, Decomposes old new first changes ∧
      ofScript steps old new = ofChanges first.length first.length changes := by
  obtain ⟨removed, inserted, oldRest, newRest, kept, changes, rfl, rfl, hrest, hkept, hgather⟩ :=
    exists_gather_eq h (start 0 0)
  rw [ofScript, hgather]
  by_cases hempty : removed = [] ∧ inserted = []
  · obtain ⟨rfl, rfl⟩ := hempty
    refine ⟨kept, changes, hrest, ?_⟩
    simp [extend, start, consTo]
  · have hne : removed ≠ [] ∨ inserted ≠ [] := by rwa [← not_and_or]
    refine ⟨[], _, hrest.change hkept [] hne, ?_⟩
    rw [consTo_of_ne_nil (by simpa [extend, start] using hne)]
    simp [ofChanges, extend, start, Replacement.old, Replacement.new]

/-- A script that only keeps has no regions. -/
theorem gather_replicate_keep (h : Hunk α) (n : Nat) (old new : List α) :
    gather h (List.replicate n .keep) old new = h.consTo [] := by
  induction n generalizing h old new with
  | zero => rfl
  | succ n ih => rw [List.replicate_succ, gather, ih, consTo_next]

end Hunk

end RuleAudit
