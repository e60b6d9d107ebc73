import RuleAudit.Proofs.Path.Spelling
import RuleAudit.Proofs.Text.Pieces
import RuleAudit.Proofs.Text.Utf8

/-!
# Components of built paths

Joining a path and a name adds the name to the components, however the path is spelled, and the parent of a
path has its components without the last one. So replacing a file name changes the last component only.
-/

namespace RuleAudit

/-! ## Names and their texts -/

/-- What can be the text of a name. -/
def ProperText (t : Text) : Prop := t ≠ [] ∧ t ≠ ['.'] ∧ t ≠ ['.', '.'] ∧ '/' ∉ t

theorem ProperText.encode {t : Text} (h : ProperText t) : ProperName (Utf8.encode t) := by
  obtain ⟨hne, hdot, hdots, hslash⟩ := h
  refine ⟨?_, ?_, ?_, fun hmem => hslash (Utf8.mem_of_mem_encode (c := '/') (by decide) hmem)⟩
  · exact fun h => hne (Utf8.encode_injective h)
  · exact fun h => hdot (Utf8.encode_injective h)
  · exact fun h => hdots (Utf8.encode_injective h)

/-- The text of a name can be that of a name, whatever its bytes are. -/
theorem ProperName.text {name : List UInt8} (h : ProperName name) :
    ProperText (Utf8.decodeLossy name) := by
  obtain ⟨hne, hdot, hdots, hslash⟩ := h
  refine ⟨fun h => hne ?_, fun h => hdot ?_, fun h => hdots ?_, fun hmem => hslash ?_⟩
  · exact Utf8.eq_encode_of_decodeLossy h (by decide)
  · exact Utf8.eq_encode_of_decodeLossy h (by decide)
  · exact Utf8.eq_encode_of_decodeLossy h (by decide)
  · exact Utf8.mem_of_mem_decodeLossy (c := '/') (by decide) (by decide) hmem

theorem Component.name_injective : Function.Injective Component.name := fun _ _ => Component.name.inj

def Name.component (name : Name) : Component := .name name.bytes

theorem Name.component_injective : Function.Injective Name.component :=
  fun _ _ h => Name.ext (Component.name.inj h)

/-- What can stand behind the first component of a path: a `..` or a name. -/
def Component.Inner : Component → Prop
  | .up => True
  | .name bytes => ProperName bytes
  | _ => False

namespace Path

/-! ## Pieces and components -/

theorem component?_of_properName {name : List UInt8} (h : ProperName name) (leading : Bool) :
    component? leading name = some (.name name) := by
  obtain ⟨hne, hdot, hdots, -⟩ := h
  simp [component?, hne, hdot, hdots]

theorem component?_ne_root (leading : Bool) (piece : List UInt8) : component? leading piece ≠ some .root := by
  rw [component?]
  repeat' split
  all_goals simp

/-- Pieces after the first one count for names and for `..` only. -/
theorem ne_of_mem_innerComponents {pieces : List (List UInt8)} {c : Component}
    (h : c ∈ innerComponents pieces) : c ≠ .root ∧ c ≠ .here := by
  obtain ⟨piece, -, hpiece⟩ := List.mem_filterMap.1 h
  refine ⟨fun hroot => component?_ne_root false piece (hroot ▸ hpiece), ?_⟩
  rintro rfl
  simp only [component?, Bool.false_eq_true, if_false] at hpiece
  repeat' split at hpiece
  all_goals cases hpiece

theorem innerComponents_append (pieces more : List (List UInt8)) :
    innerComponents (pieces ++ more) = innerComponents pieces ++ innerComponents more :=
  List.filterMap_append

theorem innerComponents_singleton (piece : List UInt8) :
    innerComponents [piece] = (component? false piece).toList := by
  rw [innerComponents, List.filterMap_cons]
  cases component? false piece <;> rfl

theorem root_not_mem_piecesComponents (pieces : List (List UInt8)) : .root ∉ piecesComponents pieces := by
  intro h
  cases pieces with
  | nil => cases h
  | cons first rest =>
    rcases List.mem_append.1 h with h | h
    · exact component?_ne_root true first (Option.mem_toList.1 h)
    · exact (ne_of_mem_innerComponents h).1 rfl

theorem piecesComponents_append {pieces : List (List UInt8)} (h : pieces ≠ []) (more : List (List UInt8)) :
    piecesComponents (pieces ++ more) = piecesComponents pieces ++ innerComponents more := by
  obtain ⟨first, rest, rfl⟩ := List.exists_cons_of_ne_nil h
  simp [piecesComponents, innerComponents_append]

/-- Every path but the empty one has a component. -/
theorem components_ne_nil {p : Path} (h : p.bytes ≠ []) : p.components ≠ [] := by
  obtain ⟨text⟩ := p
  obtain ⟨c, rest, rfl⟩ := List.exists_cons_of_ne_nil h
  rw [components]
  by_cases hc : c = slash
  · simp [isAbsolute, hc, rootOf]
  · obtain ⟨first, more, hpieces⟩ := List.exists_cons_of_ne_nil (Text.splitOn_ne_nil slash (c :: rest))
    have hfirst : first ≠ [] := Text.ne_nil_of_splitOn_cons h (by simpa using hc) hpieces
    have hsome : component? true first ≠ none := by
      simp only [component?, hfirst, if_true, if_false]
      split_ifs <;> simp
    simp [hpieces, piecesComponents, hsome]

theorem isAbsolute_append {s : List UInt8} (hs : s ≠ []) (t : List UInt8) :
    isAbsolute ⟨s ++ t⟩ = isAbsolute ⟨s⟩ := by
  obtain ⟨c, rest, rfl⟩ := List.exists_cons_of_ne_nil hs
  rfl

/-- What comes after a slash adds its components. -/
theorem components_append_slash {s : List UInt8} (hs : s ≠ []) (t : List UInt8) :
    components ⟨s ++ slash :: t⟩ = components ⟨s⟩ ++ innerComponents (Text.splitOn slash t) := by
  rw [components, components.eq_def ⟨s⟩, isAbsolute_append hs, Text.splitOn_append_cons,
    piecesComponents_append (Text.splitOn_ne_nil _ _), List.append_assoc]

theorem properName_of_component? {leading : Bool} {piece name : List UInt8} (hslash : slash ∉ piece)
    (h : component? leading piece = some (.name name)) : ProperName name := by
  rw [component?] at h
  split at h
  · cases h
  split at h
  · split at h <;> cases h
  split at h
  · cases h
  next hne hdot hdots =>
    obtain rfl := Component.name.inj (Option.some.inj h)
    exact ⟨hne, hdot, hdots, hslash⟩

/-- The names among the components are proper names. -/
theorem properName_of_mem {p : Path} {name : List UInt8} (h : .name name ∈ p.components) :
    ProperName name := by
  rw [components, List.mem_append] at h
  rcases h with h | h
  · rw [rootOf] at h
    split at h <;> simp at h
  · obtain ⟨first, rest, hpieces⟩ := List.exists_cons_of_ne_nil (Text.splitOn_ne_nil slash p.bytes)
    have hslash : ∀ piece ∈ first :: rest, slash ∉ piece := fun piece hpiece =>
      Text.not_mem_of_mem_splitOn (hpieces ▸ hpiece)
    rw [hpieces, piecesComponents, List.mem_append, Option.mem_toList, innerComponents,
      List.mem_filterMap] at h
    rcases h with h | ⟨piece, hmem, hsome⟩
    · exact properName_of_component? (hslash first List.mem_cons_self) h
    · exact properName_of_component? (hslash piece (List.mem_cons_of_mem _ hmem)) hsome

theorem components_of_isAbsolute {p : Path} (h : p.isAbsolute = true) :
    p.components = .root :: innerComponents (Text.splitOn slash p.bytes) := by
  obtain ⟨bytes⟩ := p
  cases bytes with
  | nil => cases h
  | cons b rest =>
    obtain rfl : b = slash := by simpa [isAbsolute] using h
    rfl

/-- Pieces behind the first one count for what can stand there. -/
theorem inner_of_mem_innerComponents {p : Path} {c : Component}
    (h : c ∈ innerComponents (Text.splitOn slash p.bytes)) : c.Inner := by
  have hne := ne_of_mem_innerComponents h
  obtain ⟨piece, hpiece, hsome⟩ := List.mem_filterMap.1 h
  cases c with
  | root => exact hne.1 rfl
  | here => exact hne.2 rfl
  | up => trivial
  | name bytes => exact properName_of_component? (Text.not_mem_of_mem_splitOn hpiece) hsome

/-! ## Joining -/

/-- **A path below another one** has its components after those of the other. -/
theorem components_join {p q : Path} (hp : p.bytes ≠ []) (hq : q.isAbsolute = false) :
    (p.join q).components = p.components ++ innerComponents (Text.splitOn slash q.bytes) := by
  obtain ⟨text⟩ := p
  rw [join, if_neg (by simp [hq])]
  by_cases hslash : text.getLast? = some slash
  · -- The slash at the end of the text is the one between the two paths.
    obtain ⟨init, rfl⟩ := List.getLast?_eq_some_iff.1 hslash
    rw [if_pos (by simp), List.append_assoc, List.singleton_append]
    by_cases hinit : init = []
    · subst hinit
      have hroot : components ⟨[slash]⟩ = [.root] := by decide
      rw [List.nil_append, List.nil_append, hroot, components]
      simp [isAbsolute, rootOf, Text.splitOn, piecesComponents, component?]
    · rw [components_append_slash hinit, components_append_slash hinit]
      simp [Text.splitOn, innerComponents, component?]
  · rw [if_neg (by simp [hslash, hp]), components_append_slash hp]

theorem isAbsolute_of_properName {name : List UInt8} (h : ProperName name) :
    isAbsolute ⟨name⟩ = false := by
  obtain ⟨c, rest, rfl⟩ := List.exists_cons_of_ne_nil h.1
  have hc : c ≠ slash := fun hc => h.2.2.2 (hc ▸ List.mem_cons_self)
  simp [isAbsolute, hc]

theorem join_of_bytes_eq_nil {p : Path} (hp : p.bytes = []) {name : List UInt8} (h : ProperName name) :
    p.join ⟨name⟩ = ⟨name⟩ := by
  simp [join, isAbsolute_of_properName h, hp]

theorem components_name {name : List UInt8} (h : ProperName name) :
    components ⟨name⟩ = [.name name] := by
  rw [components, isAbsolute_of_properName h, Text.splitOn_of_not_mem h.2.2.2]
  simp [rootOf, piecesComponents, innerComponents, component?_of_properName h]

/-- A name below a path is its last component. -/
theorem components_join_name (p : Path) {name : List UInt8} (h : ProperName name) :
    (p.join ⟨name⟩).components = p.components ++ [.name name] := by
  by_cases hp : p.bytes = []
  · have hnone : p.components = [] := by
      obtain rfl : p = ⟨[]⟩ := Path.ext hp
      decide
    rw [join_of_bytes_eq_nil hp h, components_name h, hnone, List.nil_append]
  · rw [components_join hp (isAbsolute_of_properName h), Text.splitOn_of_not_mem h.2.2.2,
      innerComponents_singleton, component?_of_properName h, Option.toList_some]

/-- A component behind a path is its last one. -/
theorem components_join_inner (p : Path) {c : Component} (h : c.Inner) :
    (p.join ⟨c.bytes⟩).components = p.components ++ [c] := by
  cases c with
  | root => exact h.elim
  | here => exact h.elim
  | name bytes => exact components_join_name p h
  | up =>
    by_cases hp : p.bytes = []
    · obtain rfl : p = ⟨[]⟩ := Path.ext hp
      decide
    · rw [components_join hp rfl]
      rfl

theorem components_foldl_join {cs : List Component} (h : ∀ c ∈ cs, c.Inner) (p : Path) :
    (cs.foldl (fun p c => p.join ⟨c.bytes⟩) p).components = p.components ++ cs := by
  induction cs generalizing p with
  | nil => simp
  | cons c rest ih =>
    obtain ⟨hc, hrest⟩ := List.forall_mem_cons.1 h
    rw [List.foldl_cons, ih hrest, components_join_inner p hc, List.append_assoc, List.singleton_append]

/-- **A path made of components** has these components. -/
theorem components_ofComponents {cs : List Component} (h : ∀ c ∈ cs, c.Inner) :
    (ofComponents cs).components = cs := by
  have hempty : components ⟨[]⟩ = [] := by decide
  rw [ofComponents, components_foldl_join h, hempty, List.nil_append]

/-! ## The parent -/

theorem fileName?_eq_some_iff {p : Path} {name : List UInt8} :
    p.fileName? = some name ↔ ∃ above, p.components = above ++ [.name name] := by
  rw [fileName?, Option.bind_eq_some_iff]
  constructor
  · rintro ⟨c, hc, hname⟩
    obtain ⟨above, habove⟩ := List.getLast?_eq_some_iff.1 hc
    cases c <;> simp only [Component.name?, Option.some.injEq, reduceCtorEq] at hname
    exact ⟨above, hname ▸ habove⟩
  · rintro ⟨above, habove⟩
    exact ⟨.name name, by simp [habove], rfl⟩

/-- The last piece adds its component, if it counts for one. -/
theorem piecesComponents_concat (pieces : List (List UInt8)) (piece : List UInt8) :
    piecesComponents (pieces ++ [piece]) =
      piecesComponents pieces ++ (component? pieces.isEmpty piece).toList := by
  by_cases h : pieces = []
  · subst h
    simp [piecesComponents, innerComponents]
  · rw [piecesComponents_append h, innerComponents_singleton, List.isEmpty_eq_false_iff.2 h]

/-- Pieces at the end that do not count have no components. -/
theorem piecesComponents_dropUncounted (l : List (List UInt8)) :
    piecesComponents (dropUncounted l).reverse = piecesComponents l.reverse := by
  induction l with
  | nil => rfl
  | cons piece before ih =>
    rw [dropUncounted]
    split
    · rfl
    next hcounts =>
      rw [counts, Bool.not_eq_true, Option.isSome_eq_false_iff, Option.isNone_iff_eq_none] at hcounts
      rw [ih, List.reverse_cons, piecesComponents_concat, List.isEmpty_reverse, hcounts,
        Option.toList_none, List.append_nil]

theorem dropUncounted_suffix (l : List (List UInt8)) : dropUncounted l <:+ l := by
  induction l with
  | nil => exact List.suffix_rfl
  | cons piece before ih =>
    rw [dropUncounted]
    split
    · exact List.suffix_rfl
    · exact ih.trans (List.suffix_cons piece before)

/-- A proper name counts wherever it stands. -/
theorem dropUncounted_cons {name : List UInt8} (h : ProperName name) (before : List (List UInt8)) :
    dropUncounted (name :: before) = name :: before := by
  rw [dropUncounted, counts, component?_of_properName h]
  rfl

/-- The last piece that is left counts. -/
theorem counts_of_dropUncounted {l before : List (List UInt8)} {piece : List UInt8}
    (h : dropUncounted l = piece :: before) : counts before.isEmpty piece = true := by
  induction l with
  | nil => cases h
  | cons first earlier ih =>
    rw [dropUncounted] at h
    split at h
    next hcounts =>
      obtain ⟨rfl, rfl⟩ := List.cons.inj h
      exact hcounts
    · exact ih h

/-- The text of some pieces of a path, others of which follow, keeps their components. -/
theorem components_intercalate {p : Path} {kept more : List (List UInt8)}
    (hpieces : Text.splitOn slash p.bytes = kept ++ more) (hmore : more ≠ []) (hkept : kept ≠ [])
    (hempty : kept ≠ [[]]) :
    components ⟨List.intercalate [slash] kept⟩ = rootOf p.isAbsolute ++ piecesComponents kept := by
  have hslash : ∀ piece ∈ kept ++ more, slash ∉ piece := fun piece hpiece =>
    Text.not_mem_of_mem_splitOn (hpieces ▸ hpiece)
  have hsplit : Text.splitOn slash (List.intercalate [slash] kept) = kept :=
    Text.splitOn_intercalate hkept fun piece hpiece => hslash piece (List.mem_append_left _ hpiece)
  have hsplitMore : Text.splitOn slash (List.intercalate [slash] more) = more :=
    Text.splitOn_intercalate hmore fun piece hpiece => hslash piece (List.mem_append_right _ hpiece)
  have htext : p.bytes = List.intercalate [slash] kept ++ slash :: List.intercalate [slash] more :=
    Text.splitOn_injective slash (by rw [hpieces, Text.splitOn_append_cons, hsplit, hsplitMore])
  have hne : List.intercalate [slash] kept ≠ [] := by
    intro hnil
    rw [hnil] at hsplit
    exact hempty hsplit.symm
  have habs : p.isAbsolute = isAbsolute ⟨List.intercalate [slash] kept⟩ := by
    rw [← isAbsolute_append hne, ← htext]
  rw [components, hsplit, habs]

/-- The parent has the components of the pieces before the last one that counts. -/
theorem exists_parent_of_dropUncounted {p : Path} {before : List (List UInt8)} {piece : List UInt8}
    (h : dropUncounted (Text.splitOn slash p.bytes).reverse = piece :: before) :
    ∃ q, p.parent? = some q ∧
      q.components = rootOf p.isAbsolute ++ piecesComponents before.reverse := by
  rw [← piecesComponents_dropUncounted, parent?, h]
  cases hbefore : dropUncounted before with
  | nil =>
    simp only [hbefore]
    refine ⟨_, rfl, ?_⟩
    cases p.isAbsolute <;> decide
  | cons piece' before' =>
    simp only [hbefore]
    refine ⟨_, rfl, ?_⟩
    obtain ⟨dropped, hdropped⟩ := dropUncounted_suffix (Text.splitOn slash p.bytes).reverse
    obtain ⟨dropped', hdropped'⟩ := dropUncounted_suffix before
    rw [h, ← hdropped', hbefore] at hdropped
    have hpieces : Text.splitOn slash p.bytes =
        (piece' :: before').reverse ++ (dropped'.reverse ++ piece :: dropped.reverse) := by
      rw [← List.reverse_inj, ← hdropped]
      simp
    refine components_intercalate hpieces (by simp) (by simp) ?_
    intro hempty
    -- The empty piece alone does not count.
    obtain ⟨rfl, rfl⟩ := List.cons.inj (List.reverse_eq_iff.1 hempty)
    simpa [counts, component?] using counts_of_dropUncounted hbefore

/-- **The parent of a path** has its components without the last one. -/
theorem exists_parent {p : Path} {above : List Component} {c : Component}
    (h : p.components = above ++ [c]) (hc : c ≠ .root) :
    ∃ q, p.parent? = some q ∧ q.components = above := by
  rw [components, ← List.reverse_reverse (Text.splitOn slash p.bytes),
    ← piecesComponents_dropUncounted] at h
  cases hlast : dropUncounted (Text.splitOn slash p.bytes).reverse with
  | nil =>
    -- Without a piece that counts the last component would be the root.
    have hmem : c ∈ rootOf p.isAbsolute := by
      rw [hlast, List.reverse_nil, piecesComponents, List.append_nil] at h
      simp [h]
    rw [rootOf] at hmem
    split at hmem
    · exact absurd (List.mem_singleton.1 hmem) hc
    · cases hmem
  | cons piece before =>
    obtain ⟨q, hq, hcomponents⟩ := exists_parent_of_dropUncounted hlast
    obtain ⟨last, hpiece⟩ := Option.isSome_iff_exists.1 (counts_of_dropUncounted hlast)
    rw [hlast, List.reverse_cons, piecesComponents_concat, List.isEmpty_reverse, hpiece,
      Option.toList_some, ← List.append_assoc, ← hcomponents] at h
    exact ⟨q, hq, (List.append_inj' h rfl).1⟩

/-- Another file name in the place of the old one. -/
theorem components_withFileName {p : Path} {above : List Component} {old new : List UInt8}
    (h : p.components = above ++ [.name old]) (hnew : ProperName new) :
    (p.withFileName new).components = above ++ [.name new] := by
  obtain ⟨q, hq, habove⟩ := exists_parent h (by simp)
  rw [withFileName, fileName?_eq_some_iff.2 ⟨above, h⟩, hq]
  simp [components_join_name q hnew, habove]

end Path

end RuleAudit
