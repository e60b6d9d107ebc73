/-!
# Ordered maps

A map is the list of its entries in strictly ascending order of their keys, so two maps with the
same entries are equal and a traversal needs no sorting. Keys that compare equal are one key; the
map keeps the one that was put in first.

## Main definitions

* `OrderedMap` — entries in strictly ascending key order.
* `OrderedMap.alter` — the value at a key replaced by a function of the old one.
* `OrderedMap.insert`, `OrderedMap.get?`, `OrderedMap.ofList` — the usual interface.
* `OrderedMap.mapValues` — each value replaced, keys kept.
-/

namespace RuleAudit

/-- Strict order of keys. -/
abbrev Before {κ : Type} [Ord κ] (a b : κ) : Prop := compare a b = .lt

/-- A map given by its entries in strictly ascending key order. -/
@[ext] structure OrderedMap (κ ν : Type) [Ord κ] where
  entries : List (κ × ν)
  sorted : entries.Pairwise fun a b => Before a.1 b.1

namespace OrderedMap

variable {κ ν ρ : Type} [Ord κ]

/-- The map without entries. -/
def empty : OrderedMap κ ν := ⟨[], .nil⟩

instance : Inhabited (OrderedMap κ ν) := ⟨empty⟩

instance : EmptyCollection (OrderedMap κ ν) := ⟨empty⟩

instance [DecidableEq κ] [DecidableEq ν] : DecidableEq (OrderedMap κ ν) := fun a b =>
  if h : a.entries = b.entries then .isTrue (OrderedMap.ext h)
  else .isFalse fun e => h (e ▸ rfl)

/-- Whether the map has no entry. -/
def isEmpty (m : OrderedMap κ ν) : Bool := m.entries.isEmpty

/-- The keys, ascending. -/
def keys (m : OrderedMap κ ν) : List κ := m.entries.map (·.1)

/-- The values, in the order of their keys. -/
def values (m : OrderedMap κ ν) : List ν := m.entries.map (·.2)

/-- The number of entries. -/
def size (m : OrderedMap κ ν) : Nat := m.entries.length

/-! ## Looking up -/

/-- The value at a key in a list of entries. -/
def lookup (k : κ) : List (κ × ν) → Option ν
  | [] => none
  | (k', v) :: rest => if compare k k' = .eq then some v else lookup k rest

/-- The value at a key. -/
def get? (m : OrderedMap κ ν) (k : κ) : Option ν := lookup k m.entries

/-- Whether the map has a value at a key. -/
def contains (m : OrderedMap κ ν) (k : κ) : Bool := (m.get? k).isSome

/-! ## Changing one entry -/

/-- The entry at `k` replaced by `f` of the old value, or put in its place. -/
def place (k : κ) (f : Option ν → ν) : List (κ × ν) → List (κ × ν)
  | [] => [(k, f none)]
  | (k', v) :: rest =>
    match compare k k' with
    | .lt => (k, f none) :: (k', v) :: rest
    | .eq => (k', f (some v)) :: rest
    | .gt => (k', v) :: place k f rest

theorem key_of_mem_place {k : κ} {f : Option ν → ν} {l : List (κ × ν)} {e : κ × ν}
    (h : e ∈ place k f l) : e.1 = k ∨ ∃ e' ∈ l, e'.1 = e.1 := by
  induction l with
  | nil =>
    simp only [place, List.mem_singleton] at h
    exact .inl (h ▸ rfl)
  | cons hd tl ih =>
    obtain ⟨k', v⟩ := hd
    simp only [place] at h
    split at h <;> rcases List.mem_cons.1 h with rfl | h
    · exact .inl rfl
    · exact .inr ⟨e, h, rfl⟩
    · exact .inr ⟨_, List.mem_cons_self, rfl⟩
    · exact .inr ⟨e, List.mem_cons_of_mem _ h, rfl⟩
    · exact .inr ⟨_, List.mem_cons_self, rfl⟩
    · rcases ih h with h | ⟨e', h, h'⟩
      · exact .inl h
      · exact .inr ⟨e', List.mem_cons_of_mem _ h, h'⟩

theorem place_sorted [Std.TransOrd κ] (k : κ) (f : Option ν → ν) {l : List (κ × ν)}
    (h : l.Pairwise fun a b => Before a.1 b.1) :
    (place k f l).Pairwise fun a b => Before a.1 b.1 := by
  induction l with
  | nil => simp [place]
  | cons hd tl ih =>
    obtain ⟨k', v⟩ := hd
    have hhd : ∀ e ∈ tl, Before k' e.1 := fun _ he => List.rel_of_pairwise_cons h he
    simp only [place]
    split
    next hlt =>
      refine h.cons fun e he => ?_
      rcases List.mem_cons.1 he with rfl | he
      · exact hlt
      · exact Std.TransCmp.lt_trans hlt (hhd e he)
    next => exact h.of_cons.cons hhd
    next hgt =>
      refine (ih h.of_cons).cons fun e he => ?_
      rcases key_of_mem_place he with he | ⟨e', he, hk⟩
      · rw [he]
        exact Std.OrientedCmp.lt_of_gt hgt
      · rw [← hk]
        exact hhd e' he

/-- The map whose value at `k` is `f` of the old value; all else as before. -/
def alter [Std.TransOrd κ] (m : OrderedMap κ ν) (k : κ) (f : Option ν → ν) : OrderedMap κ ν :=
  ⟨place k f m.entries, place_sorted k f m.sorted⟩

/-- The map whose value at `k` is `v`; all else as before. -/
def insert [Std.TransOrd κ] (m : OrderedMap κ ν) (k : κ) (v : ν) : OrderedMap κ ν :=
  m.alter k fun _ => v

/-- The map without the entry at `k`. -/
def erase (m : OrderedMap κ ν) (k : κ) : OrderedMap κ ν :=
  ⟨m.entries.filter fun e => compare k e.1 != .eq, m.sorted.filter _⟩

/-- The map of a list of entries, of which later ones win. -/
def ofList [Std.TransOrd κ] (l : List (κ × ν)) : OrderedMap κ ν :=
  l.foldl (fun m e => m.insert e.1 e.2) empty

/-! ## Whole maps -/

/-- Each value replaced by a function of its entry. -/
def mapValues (m : OrderedMap κ ν) (f : κ → ν → ρ) : OrderedMap κ ρ :=
  ⟨m.entries.map fun e => (e.1, f e.1 e.2), m.sorted.map _ fun _ _ h => h⟩

end OrderedMap

end RuleAudit
