import RuleAudit.Ordered.Map

/-!
# Ordered sets

A set is the strictly ascending list of its elements. Elements that compare equal are one element;
inserting keeps the one that is there.
-/

namespace RuleAudit

/-- A set given by its elements in strictly ascending order. -/
@[ext] structure OrderedSet (α : Type) [Ord α] where
  elems : List α
  sorted : elems.Pairwise Before

namespace OrderedSet

variable {α β : Type} [Ord α] [Ord β]

/-- The set without elements. -/
def empty : OrderedSet α := ⟨[], .nil⟩

instance : Inhabited (OrderedSet α) := ⟨empty⟩

instance : EmptyCollection (OrderedSet α) := ⟨empty⟩

instance [DecidableEq α] : DecidableEq (OrderedSet α) := fun a b =>
  if h : a.elems = b.elems then .isTrue (OrderedSet.ext h)
  else .isFalse fun e => h (e ▸ rfl)

/-- Whether the set has no element. -/
def isEmpty (s : OrderedSet α) : Bool := s.elems.isEmpty

/-- Whether an element equal to `x` is in the set. -/
def contains (s : OrderedSet α) (x : α) : Bool := s.elems.any fun y => compare x y == .eq

/-! ## Building -/

/-- An element put in its place. -/
def place (x : α) : List α → List α
  | [] => [x]
  | y :: rest =>
    match compare x y with
    | .lt => x :: y :: rest
    | .eq => y :: rest
    | .gt => y :: place x rest

theorem eq_or_mem_of_mem_place {x y : α} {l : List α} (h : y ∈ place x l) : y = x ∨ y ∈ l := by
  induction l with
  | nil => simpa [place] using h
  | cons hd tl ih =>
    simp only [place] at h
    split at h
    · simpa using h
    · exact .inr h
    · rcases List.mem_cons.1 h with rfl | h
      · exact .inr List.mem_cons_self
      · exact (ih h).imp id (List.mem_cons_of_mem _)

theorem place_sorted [Std.TransOrd α] (x : α) {l : List α} (h : l.Pairwise Before) :
    (place x l).Pairwise Before := by
  induction l with
  | nil => simp [place]
  | cons hd tl ih =>
    have hhd : ∀ y ∈ tl, Before hd y := fun _ hy => List.rel_of_pairwise_cons h hy
    simp only [place]
    split
    next hlt =>
      refine h.cons fun y hy => ?_
      rcases List.mem_cons.1 hy with rfl | hy
      · exact hlt
      · exact Std.TransCmp.lt_trans hlt (hhd y hy)
    next => exact h
    next hgt =>
      refine (ih h.of_cons).cons fun y hy => ?_
      rcases eq_or_mem_of_mem_place hy with rfl | hy
      · exact Std.OrientedCmp.lt_of_gt hgt
      · exact hhd _ hy

variable [Std.TransOrd α]

/-- The set with one more element. -/
def insert (s : OrderedSet α) (x : α) : OrderedSet α := ⟨place x s.elems, place_sorted x s.sorted⟩

/-- The set of the elements of a list. Of elements that compare equal the last one of the list
stays. -/
def ofList (l : List α) : OrderedSet α := l.foldr (fun x s => s.insert x) empty

/-! ## Algebra -/

omit [Std.TransOrd α] in
/-- The elements that satisfy a test. -/
def filter (s : OrderedSet α) (p : α → Bool) : OrderedSet α := ⟨s.elems.filter p, s.sorted.filter p⟩

/-- The elements of either set. -/
def union (s t : OrderedSet α) : OrderedSet α := t.elems.foldl insert s

omit [Std.TransOrd α] in
/-- The elements of the first set that are not in the second. -/
def diff (s t : OrderedSet α) : OrderedSet α := s.filter fun x => !t.contains x

end OrderedSet

end RuleAudit
