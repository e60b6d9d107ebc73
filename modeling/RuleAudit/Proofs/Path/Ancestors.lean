import Mathlib.Data.List.Induction
import Mathlib.Logic.Relation
import RuleAudit.Proofs.Files.Places
import RuleAudit.Proofs.Path.Relative

/-!
# Directories above a path

The parent of a path has its components but for the last one, so going from parent to parent ends, and on
the way up from an absolute path each nonempty beginning of its components is passed, and nothing else.
-/

namespace RuleAudit.Path

variable {p q r : Path}

/-- The second path is reached from the first one by going from parent to parent. -/
def AtOrAbove (p q : Path) : Prop := Relation.ReflTransGen (fun p q => p.parent? = some q) p q

/-! ## One step up -/

/-- A path has one component more than its parent. -/
theorem exists_component_of_parent? (h : p.parent? = some q) :
    ∃ c, c ≠ .root ∧ p.components = q.components ++ [c] := by
  cases hlast : dropUncounted (Text.splitOn slash p.bytes).reverse with
  | nil =>
    rw [parent?, hlast] at h
    cases h
  | cons piece before =>
    obtain ⟨q', hq', hcomponents⟩ := exists_parent_of_dropUncounted hlast
    obtain rfl := Option.some.inj (hq'.symm.trans h)
    obtain ⟨c, hc⟩ := Option.isSome_iff_exists.1 (counts_of_dropUncounted hlast)
    refine ⟨c, fun hroot => component?_ne_root _ _ (hroot ▸ hc), ?_⟩
    rw [components, ← List.reverse_reverse (Text.splitOn slash p.bytes),
      ← piecesComponents_dropUncounted, hlast, List.reverse_cons, piecesComponents_concat,
      List.isEmpty_reverse, hc, Option.toList_some, ← List.append_assoc, hcomponents]

theorem length_components_of_parent? (h : p.parent? = some q) :
    p.components.length = q.components.length + 1 := by
  obtain ⟨c, -, hcomponents⟩ := exists_component_of_parent? h
  rw [hcomponents, List.length_append, List.length_singleton]

/-- **Going up ends**, since each step takes a component away. -/
theorem wellFounded_parent? : WellFounded fun q p : Path => p.parent? = some q := by
  refine Subrelation.wf ?_ (InvImage.wf (fun p : Path => p.components.length) Nat.lt_wfRel.wf)
  intro q p h
  show q.components.length < p.components.length
  rw [length_components_of_parent? h]
  exact Nat.lt_succ_self _

theorem isAbsolute_of_parent? (h : p.parent? = some q) (hp : p.isAbsolute = true) :
    q.isAbsolute = true := by
  obtain ⟨c, hc, hcomponents⟩ := exists_component_of_parent? h
  rw [isAbsolute_iff] at hp ⊢
  rw [hcomponents, List.head?_append] at hp
  cases hhead : q.components.head? with
  | some first => simpa [hhead] using hp
  | none =>
    rw [hhead] at hp
    exact absurd (Option.some.inj hp) hc

/-- Only the first component of an absolute path is the root. -/
theorem ne_root_of_components (hp : p.isAbsolute = true) {above : List Component} {c : Component}
    (hne : above ≠ []) (h : p.components = above ++ [c]) : c ≠ .root := by
  obtain ⟨first, above, rfl⟩ := List.exists_cons_of_ne_nil hne
  rw [components_of_isAbsolute hp, List.cons_append, List.cons.injEq] at h
  have hmem : c ∈ innerComponents (Text.splitOn slash p.bytes) := by
    rw [h.2]
    exact List.mem_append_right above (List.mem_singleton_self c)
  exact (ne_of_mem_innerComponents hmem).1

/-! ## All steps up -/

theorem AtOrAbove.isAbsolute (h : p.AtOrAbove q) (hp : p.isAbsolute = true) :
    q.isAbsolute = true := by
  induction h with
  | refl => exact hp
  | tail _ hstep ih => exact isAbsolute_of_parent? hstep ih

theorem AtOrAbove.components_prefix (h : p.AtOrAbove q) : q.components <+: p.components := by
  induction h with
  | refl => exact List.prefix_rfl
  | tail _ hstep ih =>
    obtain ⟨c, -, hcomponents⟩ := exists_component_of_parent? hstep
    rw [hcomponents] at ih
    exact (List.prefix_append _ [c]).trans ih

/-- Each nonempty beginning of the components is passed on the way up. -/
theorem exists_atOrAbove (hp : p.isAbsolute = true) {cs ds : List Component} (hne : cs ≠ [])
    (h : p.components = cs ++ ds) : ∃ q, p.AtOrAbove q ∧ q.components = cs := by
  induction ds using List.reverseRecOn generalizing p with
  | nil => exact ⟨p, .refl, by rw [h, List.append_nil]⟩
  | append_singleton ds c ih =>
    rw [← List.append_assoc] at h
    have hc : c ≠ .root := ne_root_of_components hp (by simp [hne]) h
    obtain ⟨above, hparent, hcomponents⟩ := exists_parent h hc
    obtain ⟨q, hq, hcs⟩ := ih (isAbsolute_of_parent? hparent hp) hcomponents
    exact ⟨q, .head hparent hq, hcs⟩

/-- **What lies at or above an absolute path** is one path for each nonempty beginning of its components. -/
theorem exists_atOrAbove_iff (hp : p.isAbsolute = true) {cs : List Component} :
    (∃ q, p.AtOrAbove q ∧ q.components = cs) ↔ cs ≠ [] ∧ cs <+: p.components := by
  constructor
  · rintro ⟨q, hq, rfl⟩
    refine ⟨?_, hq.components_prefix⟩
    rw [components_of_isAbsolute (hq.isAbsolute hp)]
    exact List.cons_ne_nil _ _
  · rintro ⟨hne, ds, hds⟩
    exact exists_atOrAbove hp hne hds.symm

/-! ## The number of steps -/

/-- Each component of an absolute path but for its root has a slash before it. -/
theorem length_components_le (hp : p.isAbsolute = true) :
    p.components.length ≤ p.bytes.length + 1 := by
  obtain ⟨text⟩ := p
  cases text with
  | nil => cases hp
  | cons c rest =>
    obtain rfl : c = slash := by simpa [isAbsolute] using hp
    have hpieces : Text.splitOn slash (slash :: rest) = [] :: Text.splitOn slash rest := if_pos rfl
    have hinner : (innerComponents (Text.splitOn slash rest)).length ≤ (Text.splitOn slash rest).length :=
      List.length_filterMap_le _ _
    have hcount : rest.count slash ≤ rest.length := List.count_le_length
    rw [Text.length_splitOn] at hinner
    rw [components_of_isAbsolute hp, hpieces, List.length_cons, List.length_cons]
    show (innerComponents (Text.splitOn slash rest)).length + 1 ≤ _
    omega

end RuleAudit.Path
