import RuleAudit.Ordered.Set
import Mathlib.Data.List.Basic

/-!
# Membership in ordered sets

What is in the sets that the operations build. Elements that compare equal are one element; where
the order is lawful they are the same, and a set is determined by its members.
-/

namespace RuleAudit

/-- A strictly ascending list has no repeats. -/
theorem nodup_of_ascending {α : Type} [Ord α] [Std.ReflOrd α] {l : List α}
    (h : l.Pairwise Before) : l.Nodup := by
  refine h.imp ?_
  rintro a b hab rfl
  simp [Before] at hab

/-- Strictly ascending lists with the same members are equal. -/
theorem eq_of_ascending {α : Type} [Ord α] [Std.TransOrd α] {l l' : List α}
    (hl : l.Pairwise Before) (hl' : l'.Pairwise Before) (h : ∀ x, x ∈ l ↔ x ∈ l') : l = l' := by
  have hperm : l.Perm l' :=
    (List.perm_ext_iff_of_nodup (nodup_of_ascending hl) (nodup_of_ascending hl')).2 h
  refine hperm.eq_of_pairwise ?_ hl hl'
  intro a b _ _ hab hba
  have haa : Before a a := Std.TransCmp.lt_trans hab hba
  simp [Before] at haa

/-- The last element of an ascending list that passes a test is the one that comes after all others. -/
theorem getLast?_filter_eq_some_iff {α : Type} [Ord α] [Std.TransOrd α] {l : List α}
    (hl : l.Pairwise Before) {test : α → Bool} {a : α} : (l.filter test).getLast? = some a ↔
      a ∈ l ∧ test a = true ∧ ∀ b ∈ l, test b = true → b = a ∨ Before b a := by
  have hlast : ∀ {a}, (l.filter test).getLast? = some a →
      a ∈ l ∧ test a = true ∧ ∀ b ∈ l, test b = true → b = a ∨ Before b a := by
    intro a ha
    obtain ⟨before, hfilter⟩ := List.getLast?_eq_some_iff.1 ha
    obtain ⟨hmem, htest⟩ := List.mem_filter.1 (List.mem_of_getLast? ha)
    refine ⟨hmem, htest, fun b hb hb' => ?_⟩
    have hascending := hfilter ▸ hl.filter test
    have hb : b ∈ before ++ [a] := hfilter ▸ List.mem_filter.2 ⟨hb, hb'⟩
    rcases List.mem_append.1 hb with hb | hb
    · exact .inr ((List.pairwise_append.1 hascending).2.2 b hb a (List.mem_singleton_self a))
    · exact .inl (List.mem_singleton.1 hb)
  refine ⟨hlast, ?_⟩
  rintro ⟨hmem, htest, hafter⟩
  have hne : l.filter test ≠ [] := List.ne_nil_of_mem (List.mem_filter.2 ⟨hmem, htest⟩)
  rw [List.getLast?_eq_some_getLast hne, Option.some.injEq]
  obtain ⟨hmem', htest', hafter'⟩ := hlast (List.getLast?_eq_some_getLast hne)
  rcases hafter _ hmem' htest' with heq | hbefore
  · exact heq
  rcases hafter' a hmem htest with heq | hbefore'
  · exact heq.symm
  · have hself : Before a a := Std.TransCmp.lt_trans hbefore' hbefore
    simp [Before] at hself

namespace OrderedSet

variable {α : Type} [Ord α]

theorem contains_iff {s : OrderedSet α} {x : α} :
    s.contains x = true ↔ ∃ y ∈ s.elems, compare x y = .eq := by
  simp [contains]

theorem isEmpty_iff {s : OrderedSet α} : s.isEmpty = true ↔ ∀ x, x ∉ s.elems := by
  simp [isEmpty, List.isEmpty_iff, List.eq_nil_iff_forall_not_mem]

variable [Std.TransOrd α]

/-- Elements that compare equal are one element of the set. -/
theorem eq_of_compare_eq {s : OrderedSet α} {x y : α} (hx : x ∈ s.elems) (hy : y ∈ s.elems)
    (h : compare x y = .eq) : x = y := by
  have hlt : ∀ {a b : α}, Before a b → compare a b = .eq → a = b := by
    intro a b hab he
    simp [Before, he] at hab
  have hgt : ∀ {a b : α}, Before a b → compare b a = .eq → b = a := fun hab he =>
    (hlt hab (Std.OrientedCmp.eq_symm he)).symm
  exact List.Pairwise.forall_of_forall_of_flip (R := fun a b => compare a b = .eq → a = b)
    (fun _ _ _ => rfl) (s.sorted.imp hlt) (s.sorted.imp hgt) hx hy h

/-! ## Building -/

theorem any_place (x y : α) (l : List α) :
    ((place x l).any fun z => compare y z == .eq) =
      (compare y x == .eq || l.any fun z => compare y z == .eq) := by
  induction l with
  | nil => simp [place]
  | cons z rest ih =>
    simp only [place]
    split
    next => rfl
    next heq =>
      have hc : compare y x = compare y z := Std.TransCmp.congr_right heq
      simp [hc]
    next => simp only [List.any_cons, ih, Bool.or_left_comm]

theorem contains_insert (s : OrderedSet α) (x y : α) :
    (s.insert x).contains y = (compare y x == .eq || s.contains y) :=
  any_place x y s.elems

theorem contains_ofList (l : List α) (x : α) :
    (ofList l).contains x = l.any fun y => compare x y == .eq := by
  induction l with
  | nil => rfl
  | cons y rest ih =>
    rw [List.any_cons, ← ih]
    exact contains_insert _ y x

omit [Std.TransOrd α] in
theorem mem_place_of_mem {x y : α} {l : List α} (h : y ∈ l) : y ∈ place x l := by
  induction l with
  | nil => cases h
  | cons z rest ih =>
    simp only [place]
    split
    · exact List.mem_cons_of_mem x h
    · exact h
    · rcases List.mem_cons.1 h with rfl | h
      · exact List.mem_cons_self
      · exact List.mem_cons_of_mem z (ih h)

theorem mem_of_mem_ofList {l : List α} {x : α} (h : x ∈ (ofList l).elems) : x ∈ l := by
  induction l with
  | nil => cases h
  | cons y rest ih =>
    rcases eq_or_mem_of_mem_place h with rfl | h
    · exact List.mem_cons_self
    · exact List.mem_cons_of_mem y (ih h)

/-- The elements at the end of a list stay as they are, if they come in ascending order. -/
theorem mem_ofList_append {l l' : List α} (hl' : l'.Pairwise Before) {x : α} (h : x ∈ l') :
    x ∈ (ofList (l ++ l')).elems := by
  have hend : x ∈ (ofList l').elems := by
    have hcontains : (ofList l').contains x = true := by
      rw [contains_ofList, List.any_eq_true]
      exact ⟨x, h, by simp⟩
    obtain ⟨y, hy, hxy⟩ := contains_iff.1 hcontains
    rwa [eq_of_compare_eq (s := ⟨l', hl'⟩) h (mem_of_mem_ofList hy) hxy]
  induction l with
  | nil => exact hend
  | cons y rest ih => exact mem_place_of_mem ih

/-! ## Algebra -/

theorem contains_union (s t : OrderedSet α) (x : α) :
    (s.union t).contains x = (s.contains x || t.contains x) := by
  suffices hfold : ∀ (l : List α) (s : OrderedSet α),
      (l.foldl insert s).contains x = (s.contains x || l.any fun y => compare x y == .eq) from
    hfold t.elems s
  intro l
  induction l with
  | nil => simp
  | cons y rest ih =>
    intro s
    rw [List.foldl_cons, ih, contains_insert, List.any_cons, Bool.or_comm (compare x y == .eq),
      Bool.or_assoc]

/-! ## Lawful orders -/

variable [Std.LawfulEqOrd α]

omit [Std.TransOrd α] in
theorem contains_iff_mem {s : OrderedSet α} {x : α} : s.contains x = true ↔ x ∈ s.elems := by
  simp [contains_iff]

@[simp] theorem mem_ofList {l : List α} {x : α} : x ∈ (ofList l).elems ↔ x ∈ l := by
  simp [← contains_iff_mem, contains_ofList]

@[simp] theorem mem_insert {s : OrderedSet α} {x y : α} :
    y ∈ (s.insert x).elems ↔ y = x ∨ y ∈ s.elems := by
  simp [← contains_iff_mem, contains_insert]

@[simp] theorem mem_union {s t : OrderedSet α} {x : α} :
    x ∈ (s.union t).elems ↔ x ∈ s.elems ∨ x ∈ t.elems := by
  simp [← contains_iff_mem, contains_union]

omit [Std.LawfulEqOrd α] in
/-- **A set is determined by its members.** -/
theorem ext_mem {s t : OrderedSet α} (h : ∀ x, x ∈ s.elems ↔ x ∈ t.elems) : s = t :=
  OrderedSet.ext (eq_of_ascending s.sorted t.sorted h)

end OrderedSet

end RuleAudit
