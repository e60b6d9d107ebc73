/-!
# Stable sorting

Lists that may repeat elements are sorted by insertion: an element goes before the first one whose
key is not smaller, so elements with equal keys stay in their order.
-/

namespace RuleAudit

variable {α κ : Type} [Ord κ]

/-- An element put before the first one whose key is not smaller. -/
def insertOn (key : α → κ) (x : α) : List α → List α
  | [] => [x]
  | y :: rest => if compare (key x) (key y) = .gt then y :: insertOn key x rest else x :: y :: rest

/-- A list sorted by a key, elements with equal keys in their old order. -/
def sortOn (key : α → κ) (l : List α) : List α := l.foldr (insertOn key) []

theorem insertOn_perm (key : α → κ) (x : α) (l : List α) : (insertOn key x l).Perm (x :: l) := by
  induction l with
  | nil => exact .refl _
  | cons y rest ih =>
    rw [insertOn]
    split
    · exact (ih.cons y).trans (.swap x y rest)
    · exact .refl _

/-- Sorting neither adds nor drops an element. -/
theorem sortOn_perm (key : α → κ) (l : List α) : (sortOn key l).Perm l := by
  induction l with
  | nil => exact .refl _
  | cons x rest ih => exact (insertOn_perm key x _).trans (ih.cons x)

theorem insertOn_ascending [Std.TransOrd κ] (key : α → κ) (x : α) {l : List α}
    (h : l.Pairwise fun a b => (compare (key a) (key b)).isLE) :
    (insertOn key x l).Pairwise fun a b => (compare (key a) (key b)).isLE := by
  induction l with
  | nil => simp [insertOn]
  | cons y rest ih =>
    obtain ⟨hy, hrest⟩ := List.pairwise_cons.1 h
    rw [insertOn]
    split
    next hgt =>
      refine (ih hrest).cons ?_
      intro z hz
      rcases List.mem_cons.1 ((insertOn_perm key x rest).mem_iff.1 hz) with rfl | hz
      · simp [Std.OrientedCmp.lt_of_gt hgt]
      · exact hy z hz
    next hle =>
      have hxy : (compare (key x) (key y)).isLE := Ordering.isLE_iff_ne_gt.2 hle
      refine h.cons ?_
      intro z hz
      rcases List.mem_cons.1 hz with rfl | hz
      · exact hxy
      · exact Std.TransCmp.isLE_trans hxy (hy z hz)

/-- The keys of a sorted list ascend. -/
theorem sortOn_ascending [Std.TransOrd κ] (key : α → κ) (l : List α) :
    (sortOn key l).Pairwise fun a b => (compare (key a) (key b)).isLE := by
  induction l with
  | nil => exact .nil
  | cons x rest ih => exact insertOn_ascending key x ih

/-- Putting an element in its place moves it behind none with an equal key. -/
theorem filter_insertOn [Std.TransOrd κ] (key : α → κ) (x : α) (l : List α) (k : κ) :
    (insertOn key x l).filter (fun y => compare (key y) k == .eq) =
      (x :: l).filter fun y => compare (key y) k == .eq := by
  induction l with
  | nil => rfl
  | cons y rest ih =>
    rw [insertOn]
    split
    next hgt =>
      have hnot : ¬ (compare (key x) k = .eq ∧ compare (key y) k = .eq) := by
        rintro ⟨hx, hy⟩
        rw [Std.TransCmp.eq_trans hx (Std.OrientedCmp.eq_symm hy)] at hgt
        cases hgt
      rw [List.filter_cons, ih]
      simp only [List.filter_cons, beq_iff_eq]
      by_cases hx : compare (key x) k = .eq
      · simp [hx, show compare (key y) k ≠ .eq from fun hy => hnot ⟨hx, hy⟩]
      · simp [hx]
    next => rfl

/-- Elements with equal keys stay in their order. -/
theorem filter_sortOn [Std.TransOrd κ] (key : α → κ) (l : List α) (k : κ) :
    (sortOn key l).filter (fun y => compare (key y) k == .eq) =
      l.filter fun y => compare (key y) k == .eq := by
  induction l with
  | nil => rfl
  | cons x rest ih =>
    have hsort : sortOn key (x :: rest) = insertOn key x (sortOn key rest) := rfl
    rw [hsort, filter_insertOn, List.filter_cons, List.filter_cons, ih]

/-- The second list is the first one in the order of a key, elements with equal keys in their old order. -/
structure StablySorted (key : α → κ) (l sorted : List α) : Prop where
  perm : sorted.Perm l
  ascending : sorted.Pairwise fun a b => (compare (key a) (key b)).isLE
  /-- The elements with one key are those of the list, one after the other. -/
  stable : ∀ k, sorted.filter (fun x => compare (key x) k == .eq) =
    l.filter fun x => compare (key x) k == .eq

/-- **Sorting by a key** is stable. -/
theorem sortOn_stablySorted [Std.TransOrd κ] (key : α → κ) (l : List α) :
    StablySorted key l (sortOn key l) :=
  ⟨sortOn_perm key l, sortOn_ascending key l, filter_sortOn key l⟩

end RuleAudit
