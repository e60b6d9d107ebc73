import RuleAudit.Ordered.Map
import Mathlib.Data.List.Basic

/-!
# Lookups in ordered maps

What each operation on a map does to its lookups. Keys that compare equal are one key, so a lookup
cannot tell them apart; the entries, which keep the spelling of a key, are tied to the lookups by
`OrderedMap.get?_eq_some_iff`.
-/

namespace RuleAudit.OrderedMap

variable {κ ν ρ : Type} [Ord κ]

@[simp] theorem get?_empty (k : κ) : (empty : OrderedMap κ ν).get? k = none := rfl

/-- Keys that differ, pair by pair. -/
def DistinctKeys (l : List (κ × ν)) : Prop := l.Pairwise fun a b => compare a.1 b.1 ≠ .eq

theorem distinctKeys_entries (m : OrderedMap κ ν) : DistinctKeys m.entries := by
  refine m.sorted.imp ?_
  intro a b h he
  simp [Before, he] at h

variable [Std.TransOrd κ]

/-- No key is there twice. -/
theorem nodup_keys (m : OrderedMap κ ν) : m.keys.Nodup := by
  refine List.pairwise_map.2 (m.distinctKeys_entries.imp ?_)
  intro e e' hne heq
  exact hne (heq ▸ Std.ReflCmp.compare_self)

/-! ## Looking up -/

theorem lookup_congr {k k' : κ} (h : compare k k' = .eq) (l : List (κ × ν)) :
    lookup k l = lookup k' l := by
  induction l with
  | nil => rfl
  | cons e rest ih =>
    have hc : compare k e.1 = compare k' e.1 := Std.TransCmp.congr_left h
    simp only [lookup, hc, ih]

theorem get?_congr {k k' : κ} (h : compare k k' = .eq) (m : OrderedMap κ ν) :
    m.get? k = m.get? k' :=
  lookup_congr h m.entries

omit [Std.TransOrd κ] in
theorem lookup_eq_none_iff {k : κ} {l : List (κ × ν)} :
    lookup k l = none ↔ ∀ e ∈ l, compare k e.1 ≠ .eq := by
  induction l with
  | nil => simp [lookup]
  | cons e rest ih =>
    simp only [lookup, List.forall_mem_cons]
    by_cases h : compare k e.1 = .eq <;> simp [h, ih]

theorem lookup_eq_some_iff {k : κ} {v : ν} {l : List (κ × ν)} (hl : DistinctKeys l) :
    lookup k l = some v ↔ ∃ k', compare k k' = .eq ∧ (k', v) ∈ l := by
  induction l with
  | nil => simp [lookup]
  | cons e rest ih =>
    obtain ⟨k₁, v₁⟩ := e
    have hrest : ∀ e ∈ rest, compare k₁ e.1 ≠ .eq := fun e he => List.rel_of_pairwise_cons hl he
    simp only [lookup]
    by_cases h : compare k k₁ = .eq
    · simp only [h, if_true, Option.some.injEq, List.mem_cons, Prod.mk.injEq]
      constructor
      · rintro rfl
        exact ⟨k₁, h, .inl ⟨rfl, rfl⟩⟩
      · rintro ⟨k', hk', ⟨rfl, rfl⟩ | hmem⟩
        · rfl
        · have hc : compare k₁ k' = .eq :=
            Std.TransCmp.eq_trans (Std.OrientedCmp.eq_symm h) hk'
          exact absurd hc (hrest _ hmem)
    · simp only [h, if_false, ih hl.of_cons, List.mem_cons, Prod.mk.injEq]
      constructor
      · rintro ⟨k', hk', hmem⟩
        exact ⟨k', hk', .inr hmem⟩
      · rintro ⟨k', hk', ⟨rfl, rfl⟩ | hmem⟩
        · exact absurd hk' h
        · exact ⟨k', hk', hmem⟩

/-- **A lookup finds exactly the entries**, under any spelling of their keys. -/
theorem get?_eq_some_iff {m : OrderedMap κ ν} {k : κ} {v : ν} :
    m.get? k = some v ↔ ∃ k', compare k k' = .eq ∧ (k', v) ∈ m.entries :=
  lookup_eq_some_iff m.distinctKeys_entries

theorem get?_of_mem {m : OrderedMap κ ν} {k : κ} {v : ν} (h : (k, v) ∈ m.entries) :
    m.get? k = some v :=
  get?_eq_some_iff.2 ⟨k, Std.ReflCmp.compare_self, h⟩

/-- Entries whose keys compare equal are one entry. -/
theorem eq_of_mem {m : OrderedMap κ ν} {e e' : κ × ν} (he : e ∈ m.entries) (he' : e' ∈ m.entries)
    (hkey : compare e.1 e'.1 = .eq) : e = e' := by
  have hpairs : m.entries.Pairwise fun a b => compare a.1 b.1 = .eq → a = b :=
    m.distinctKeys_entries.imp fun hne heq => absurd heq hne
  have hflipped : m.entries.Pairwise fun a b => compare b.1 a.1 = .eq → b = a :=
    m.distinctKeys_entries.imp fun hne heq => absurd (Std.OrientedCmp.eq_symm heq) hne
  exact hpairs.forall_of_forall_of_flip (fun _ _ _ => rfl) hflipped he he' hkey

theorem mem_values_iff {m : OrderedMap κ ν} {v : ν} : v ∈ m.values ↔ ∃ k, m.get? k = some v := by
  simp only [values, List.mem_map]
  constructor
  · rintro ⟨e, he, rfl⟩
    exact ⟨e.1, get?_of_mem he⟩
  · rintro ⟨k, hk⟩
    obtain ⟨k', -, hmem⟩ := get?_eq_some_iff.1 hk
    exact ⟨(k', v), hmem, rfl⟩

theorem exists_mem_keys_iff {m : OrderedMap κ ν} {k : κ} :
    (∃ k' ∈ m.keys, compare k k' = .eq) ↔ (m.get? k).isSome = true := by
  simp only [keys, List.mem_map, Option.isSome_iff_exists, get?_eq_some_iff]
  constructor
  · rintro ⟨k', ⟨e, he, rfl⟩, hk⟩
    exact ⟨e.2, e.1, hk, he⟩
  · rintro ⟨v, k', hk, hmem⟩
    exact ⟨k', ⟨(k', v), hmem, rfl⟩, hk⟩

theorem mem_keys_iff [Std.LawfulEqOrd κ] {m : OrderedMap κ ν} {k : κ} :
    k ∈ m.keys ↔ (m.get? k).isSome = true := by
  simp [← exists_mem_keys_iff]

theorem isEmpty_iff {m : OrderedMap κ ν} : m.isEmpty = true ↔ ∀ k, m.get? k = none := by
  simp only [isEmpty, List.isEmpty_iff]
  constructor
  · intro h k
    rw [get?, h]
    rfl
  · intro h
    refine List.eq_nil_iff_forall_not_mem.2 ?_
    intro e he
    have hnone := h e.1
    rw [get?_of_mem he] at hnone
    cases hnone

omit [Std.TransOrd κ] in
theorem get?_mapValues (m : OrderedMap κ ν) (f : ν → ρ) (k : κ) :
    (m.mapValues fun _ v => f v).get? k = (m.get? k).map f := by
  obtain ⟨entries, sorted⟩ := m
  simp only [get?, mapValues]
  clear sorted
  induction entries with
  | nil => rfl
  | cons e rest ih =>
    simp only [List.map_cons, lookup, ih]
    split <;> rfl

/-! ## Changing one entry -/

theorem lookup_place_self {k k' : κ} (h : compare k' k = .eq) (f : Option ν → ν)
    {l : List (κ × ν)} (hl : l.Pairwise fun a b => Before a.1 b.1) :
    lookup k' (place k f l) = some (f (lookup k l)) := by
  rw [lookup_congr h]
  have hself : compare k k = .eq := Std.ReflCmp.compare_self
  induction l with
  | nil => simp [place, lookup]
  | cons e rest ih =>
    obtain ⟨k₁, v₁⟩ := e
    simp only [place]
    split
    next hlt =>
      have hnone : lookup k ((k₁, v₁) :: rest) = none := by
        refine lookup_eq_none_iff.2 ?_
        intro e he hc
        rcases List.mem_cons.1 he with rfl | he
        · simp [hlt] at hc
        · have hb : compare k e.1 = .lt :=
            Std.TransCmp.lt_trans hlt (List.rel_of_pairwise_cons hl he)
          simp [hb] at hc
      rw [hnone, lookup, if_pos hself]
    next heq => simp [lookup, heq]
    next hgt => simp [lookup, hgt, ih hl.of_cons]

theorem lookup_place_of_ne {k k' : κ} (h : compare k' k ≠ .eq) (f : Option ν → ν)
    (l : List (κ × ν)) : lookup k' (place k f l) = lookup k' l := by
  induction l with
  | nil => simp [place, lookup, h]
  | cons e rest ih =>
    obtain ⟨k₁, v₁⟩ := e
    simp only [place]
    split
    next => simp [lookup, h]
    next heq =>
      have hne : compare k' k₁ ≠ .eq := by
        rwa [← Std.TransCmp.congr_right heq]
      simp [lookup, hne]
    next => simp only [lookup, ih]

theorem get?_alter (m : OrderedMap κ ν) (k k' : κ) (f : Option ν → ν) :
    (m.alter k f).get? k' = if compare k' k = .eq then some (f (m.get? k)) else m.get? k' := by
  by_cases h : compare k' k = .eq
  · rw [if_pos h]
    exact lookup_place_self h f m.sorted
  · rw [if_neg h]
    exact lookup_place_of_ne h f m.entries

omit [Std.TransOrd κ] in
theorem mem_keys_place {k k' : κ} {f : Option ν → ν} {l : List (κ × ν)} (h : k' ∈ l.map (·.1)) :
    k' ∈ (place k f l).map (·.1) := by
  induction l with
  | nil => cases h
  | cons e rest ih =>
    obtain ⟨k₁, v₁⟩ := e
    simp only [place]
    split
    · exact List.mem_cons_of_mem k h
    · exact h
    · rcases List.mem_cons.1 h with rfl | h
      · exact List.mem_cons_self
      · exact List.mem_cons_of_mem k₁ (ih h)

/-- A key that is there keeps its spelling. -/
theorem mem_keys_alter {m : OrderedMap κ ν} {k' : κ} (h : k' ∈ m.keys) (k : κ) (f : Option ν → ν) :
    k' ∈ (m.alter k f).keys :=
  mem_keys_place h

theorem eq_of_mem_keys {m : OrderedMap κ ν} {k k' : κ} (hk : k ∈ m.keys) (hk' : k' ∈ m.keys)
    (h : compare k k' = .eq) : k = k' := by
  obtain ⟨e, he, rfl⟩ := List.mem_map.1 hk
  obtain ⟨e', he', rfl⟩ := List.mem_map.1 hk'
  rw [eq_of_mem he he' h]

theorem get?_insert (m : OrderedMap κ ν) (k k' : κ) (v : ν) :
    (m.insert k v).get? k' = if compare k' k = .eq then some v else m.get? k' :=
  get?_alter m k k' _

omit [Std.TransOrd κ] in
theorem lookup_filter_of_pos {k : κ} {keep : κ × ν → Bool} {l : List (κ × ν)}
    (h : ∀ e ∈ l, compare k e.1 = .eq → keep e = true) : lookup k (l.filter keep) = lookup k l := by
  induction l with
  | nil => rfl
  | cons e rest ih =>
    obtain ⟨he, hrest⟩ := List.forall_mem_cons.1 h
    by_cases hkey : compare k e.1 = .eq
    · rw [List.filter_cons_of_pos (he hkey)]
      simp only [lookup, hkey, if_true]
    · by_cases hkeep : keep e = true
      · rw [List.filter_cons_of_pos hkeep]
        simp only [lookup, hkey, if_false, ih hrest]
      · rw [List.filter_cons_of_neg hkeep, ih hrest]
        simp only [lookup, hkey, if_false]

omit [Std.TransOrd κ] in
theorem get?_erase_self (m : OrderedMap κ ν) (k : κ) : (m.erase k).get? k = none := by
  refine lookup_eq_none_iff.2 fun e he => ?_
  simpa using (List.mem_filter.1 he).2

/-- Without one entry all others are as before. -/
theorem get?_erase_of_ne (m : OrderedMap κ ν) {k k' : κ} (h : compare k' k ≠ .eq) :
    (m.erase k).get? k' = m.get? k' := by
  refine lookup_filter_of_pos fun e _ he => ?_
  rw [bne_iff_ne]
  intro hke
  exact h (Std.TransCmp.eq_trans he (Std.OrientedCmp.eq_symm hke))

omit [Std.TransOrd κ] in
theorem place_of_forall_gt {k : κ} {l : List (κ × ν)} (h : ∀ e ∈ l, compare k e.1 = .gt)
    (f : Option ν → ν) : place k f l = l ++ [(k, f none)] := by
  induction l with
  | nil => rfl
  | cons e rest ih =>
    obtain ⟨he, hrest⟩ := List.forall_mem_cons.1 h
    simp only [place, he, ih hrest, List.cons_append]

/-- A key behind all others has its entry at the end. -/
theorem entries_alter_of_forall_gt {m : OrderedMap κ ν} {k : κ}
    (h : ∀ e ∈ m.entries, compare k e.1 = .gt) (f : Option ν → ν) :
    (m.alter k f).entries = m.entries ++ [(k, f none)] :=
  place_of_forall_gt h f

/-! ## Building from a list -/

omit [Std.TransOrd κ] in
theorem place_perm {k : κ} {f : Option ν → ν} {l : List (κ × ν)} (h : lookup k l = none) :
    (place k f l).Perm ((k, f none) :: l) := by
  induction l with
  | nil => exact .refl _
  | cons e rest ih =>
    obtain ⟨k₁, v₁⟩ := e
    have hne : compare k k₁ ≠ .eq := lookup_eq_none_iff.1 h _ List.mem_cons_self
    have hrest : lookup k rest = none := by
      simpa [lookup, hne] using h
    simp only [place]
    split
    next => exact .refl _
    next heq => exact absurd heq hne
    next => exact ((ih hrest).cons _).trans (.swap _ _ _)

/-- A new key adds its entry to those that are there. -/
theorem entries_insert_perm {m : OrderedMap κ ν} {k : κ} (v : ν) (h : m.get? k = none) :
    (m.insert k v).entries.Perm ((k, v) :: m.entries) :=
  place_perm h

theorem entries_foldl_insert_perm {l : List (κ × ν)} (hl : DistinctKeys l) (m : OrderedMap κ ν)
    (hm : ∀ e ∈ l, m.get? e.1 = none) :
    (l.foldl (fun m e => m.insert e.1 e.2) m).entries.Perm (l ++ m.entries) := by
  induction l generalizing m with
  | nil => exact .refl _
  | cons e rest ih =>
    have hnew : ∀ e' ∈ rest, (m.insert e.1 e.2).get? e'.1 = none := by
      intro e' he'
      have hne : compare e'.1 e.1 ≠ .eq := fun hc =>
        List.rel_of_pairwise_cons hl he' (Std.OrientedCmp.eq_symm hc)
      rw [get?_insert, if_neg hne]
      exact hm e' (List.mem_cons_of_mem _ he')
    have hinsert := entries_insert_perm (m := m) e.2 (hm e List.mem_cons_self)
    calc
      (rest.foldl (fun m e => m.insert e.1 e.2) (m.insert e.1 e.2)).entries.Perm
          (rest ++ (m.insert e.1 e.2).entries) := ih hl.of_cons _ hnew
      _ |>.Perm (rest ++ e :: m.entries) := hinsert.append_left rest
      _ |>.Perm (e :: rest ++ m.entries) := List.perm_middle

/-- **A list with distinct keys loses no entry** on its way into a map. -/
theorem entries_ofList_perm {l : List (κ × ν)} (hl : DistinctKeys l) :
    (ofList l).entries.Perm l := by
  simpa [ofList, empty] using entries_foldl_insert_perm hl empty (fun _ _ => rfl)

/-- Maps with the same entries in any order are equal. -/
theorem eq_of_entries_perm {m m' : OrderedMap κ ν} (h : m.entries.Perm m'.entries) : m = m' := by
  refine OrderedMap.ext (h.eq_of_pairwise ?_ m.sorted m'.sorted)
  intro a b _ _ hab hba
  have hlt : compare a.1 a.1 = .lt := Std.TransCmp.lt_trans hab hba
  simp at hlt

theorem mem_entries_iff {m : OrderedMap κ ν} {e : κ × ν} :
    e ∈ m.entries ↔ e.1 ∈ m.keys ∧ m.get? e.1 = some e.2 := by
  constructor
  · exact fun he => ⟨List.mem_map_of_mem he, get?_of_mem he⟩
  · rintro ⟨hkey, hget⟩
    obtain ⟨e', he', hkey⟩ := List.mem_map.1 hkey
    have hget' : m.get? e.1 = some e'.2 := hkey ▸ get?_of_mem he'
    have hvalue : e'.2 = e.2 := Option.some.inj (hget'.symm.trans hget)
    rwa [Prod.ext hkey hvalue] at he'

/-- **A map is determined by its lookups** and the spelling of its keys. -/
theorem ext_keys {m m' : OrderedMap κ ν} (hkeys : ∀ k, k ∈ m.keys ↔ k ∈ m'.keys)
    (hget : ∀ k, m.get? k = m'.get? k) : m = m' := by
  have hnodup : ∀ m : OrderedMap κ ν, m.entries.Nodup := by
    intro m
    refine m.distinctKeys_entries.imp ?_
    rintro e _ hne rfl
    exact hne Std.ReflCmp.compare_self
  refine eq_of_entries_perm ((List.perm_ext_iff_of_nodup (hnodup m) (hnodup m')).2 fun e => ?_)
  rw [mem_entries_iff, mem_entries_iff, hkeys, hget]

/-- Where the order is lawful, keys have one spelling only. -/
theorem ext_get? [Std.LawfulEqOrd κ] {m m' : OrderedMap κ ν} (hget : ∀ k, m.get? k = m'.get? k) :
    m = m' :=
  ext_keys (fun k => by rw [mem_keys_iff, mem_keys_iff, hget]) hget

/-- Of two values for one key the later one counts. -/
theorem insert_insert [Std.LawfulEqOrd κ] (m : OrderedMap κ ν) (k : κ) (v v' : ν) :
    (m.insert k v).insert k v' = m.insert k v' := by
  refine ext_get? fun k' => ?_
  rw [get?_insert, get?_insert, get?_insert]
  split <;> rfl

/-- Without its new key a map is as before. -/
theorem erase_insert [Std.LawfulEqOrd κ] {m : OrderedMap κ ν} {k : κ} (h : m.get? k = none) (v : ν) :
    (m.insert k v).erase k = m := by
  refine ext_get? fun k' => ?_
  by_cases hkey : compare k' k = .eq
  · rw [Std.LawfulEqOrd.eq_of_compare hkey, get?_erase_self, h]
  · rw [get?_erase_of_ne _ hkey, get?_insert, if_neg hkey]

/-- The order of a list with distinct keys does not show in its map. -/
theorem ofList_eq_of_perm {l l' : List (κ × ν)} (hl : DistinctKeys l) (h : l.Perm l') :
    ofList l = ofList l' := by
  have hl' : DistinctKeys l' := h.pairwise hl fun hab hba => hab (Std.OrientedCmp.eq_symm hba)
  exact eq_of_entries_perm
    ((entries_ofList_perm hl).trans (h.trans (entries_ofList_perm hl').symm))

theorem get?_foldl_insert (l : List (κ × ν)) (m : OrderedMap κ ν) (k : κ) :
    (l.foldl (fun m e => m.insert e.1 e.2) m).get? k =
      ((l.filter fun e => compare k e.1 == .eq).map Prod.snd).getLast?.or (m.get? k) := by
  induction l generalizing m with
  | nil => rfl
  | cons e rest ih =>
    rw [List.foldl_cons, ih, get?_insert]
    by_cases hkey : compare k e.1 = .eq
    · simp only [hkey, if_true, List.filter_cons, beq_self_eq_true, List.map_cons,
        List.getLast?_cons]
      cases ((rest.filter fun e => compare k e.1 == .eq).map Prod.snd).getLast? <;> rfl
    · simp only [hkey, if_false, List.filter_cons, beq_iff_eq]

/-- **A lookup in the map of a list** finds what the list says last. -/
theorem get?_ofList (l : List (κ × ν)) (k : κ) : (ofList l).get? k =
    ((l.filter fun e => compare k e.1 == .eq).map Prod.snd).getLast? := by
  rw [ofList, get?_foldl_insert, get?_empty, Option.or_none]

theorem mem_keys_ofList [Std.LawfulEqOrd κ] {l : List (κ × ν)} {k : κ} :
    k ∈ (ofList l).keys ↔ ∃ e ∈ l, e.1 = k := by
  rw [mem_keys_iff, get?_ofList, List.getLast?_isSome, ne_eq, List.map_eq_nil_iff, List.filter_eq_nil_iff]
  simp only [beq_iff_eq, Std.LawfulEqOrd.compare_eq_iff_eq, not_forall, not_not, exists_prop,
    eq_comm (a := k)]

/-- Every value of the map of a list stands in the list. -/
theorem exists_mem_of_mem_values_ofList {l : List (κ × ν)} {v : ν} (h : v ∈ (ofList l).values) :
    ∃ e ∈ l, e.2 = v := by
  obtain ⟨k, hk⟩ := mem_values_iff.1 h
  rw [get?_ofList] at hk
  obtain ⟨e, he, hv⟩ := List.mem_map.1 (List.mem_of_getLast? hk)
  exact ⟨e, List.mem_of_mem_filter he, hv⟩

/-- A lookup in the map that takes each key of a list to a value of its own. -/
theorem get?_ofList_map {f : κ → ν} (hf : ∀ k k', compare k k' = .eq → f k = f k') {l : List κ} {k : κ}
    (hk : k ∈ l) : (ofList (l.map fun k => (k, f k))).get? k = some (f k) := by
  suffices hfold : ∀ m : OrderedMap κ ν, m.get? k = some (f k) ∨ k ∈ l →
      ((l.map fun k => (k, f k)).foldl (fun m e => m.insert e.1 e.2) m).get? k = some (f k) from
    hfold empty (.inr hk)
  clear hk
  induction l with
  | nil => exact fun m hm => hm.resolve_right List.not_mem_nil
  | cons first rest ih =>
    intro m hm
    refine ih _ ?_
    rw [get?_insert]
    by_cases hkey : compare k first = .eq
    · exact .inl (by rw [if_pos hkey, hf k first hkey])
    · rw [if_neg hkey]
      refine hm.imp_right fun hmem => (List.mem_cons.1 hmem).resolve_left ?_
      rintro rfl
      exact hkey Std.ReflCmp.compare_self

end RuleAudit.OrderedMap
