import RuleAudit.Path.Relative
import RuleAudit.Proofs.Path.Suffixes
import RuleAudit.Proofs.Path.Texts

/-!
# Ways below a base

The way from an absolute base to a path below it consists of the names that come after the base, wherever
the base is. Two children name the same test if and only if both have a test and it is one and the same, so
this is an equivalence on the children that have one.
-/

namespace RuleAudit.Path

/-- The path leads from the root through some directories to a name. -/
def LiesAt (root : Path) (dirs : List (List UInt8)) (name : List UInt8) (p : Path) : Prop :=
  p.components = root.components ++ dirs.map .name ++ [.name name]

/-- The test that a path names below a parent: the way to it without the suffixes of its name. -/
def testOf? (parent p : Path) : Option (List Component) :=
  (p.relative? parent).map fun way => way.withoutSuffixes.components

/-- **Naming the same test** is having the same test. -/
theorem samePlace_iff {parent child parent' child' : Path} :
    samePlace parent child parent' child' = true ↔
      ∃ test, testOf? parent child = some test ∧ testOf? parent' child' = some test := by
  rw [samePlace, testOf?, testOf?]
  cases child.relative? parent with
  | none => simp
  | some way =>
    cases child'.relative? parent' with
    | none => simp
    | some way' =>
      simp only [same_iff, Option.map_some, Option.some.injEq]
      exact ⟨fun h => ⟨_, h, rfl⟩, fun ⟨_, h, h'⟩ => h.trans h'.symm⟩

/-! ## Ways below a base -/

theorem isAbsolute_iff {p : Path} : p.isAbsolute = true ↔ p.components.head? = some .root := by
  rw [components]
  cases h : p.isAbsolute with
  | true => simp [rootOf]
  | false =>
    simp only [rootOf, Bool.false_eq_true, if_false, List.nil_append, false_iff]
    intro hhead
    exact root_not_mem_piecesComponents _ (List.mem_of_mem_head? hhead)

theorem wayFrom_append (base rest : List Component) :
    wayFrom [] (base ++ rest) base = some rest := by
  induction base with
  | nil => cases rest <;> rfl
  | cons c base ih => simpa [wayFrom] using ih

theorem relative?_of_isAbsolute {base p : Path} (hp : p.isAbsolute = true)
    (hbase : base.isAbsolute = true) :
    p.relative? base = (wayFrom [] p.components base.components).map ofComponents := by
  simp [relative?, hp, hbase]

/-- The way to a path below an absolute base. -/
theorem relative?_of_below {base p : Path} {rest : List Component} (hbase : base.isAbsolute = true)
    (h : p.components = base.components ++ rest) : p.relative? base = some (ofComponents rest) := by
  have hp : p.isAbsolute = true := by
    rw [isAbsolute_iff] at hbase ⊢
    rw [h, List.head?_append, hbase]
    rfl
  rw [relative?_of_isAbsolute hp hbase, h, wayFrom_append, Option.map_some]

theorem LiesAt.properName {root p : Path} {dirs : List (List UInt8)} {name : List UInt8}
    (h : root.LiesAt dirs name p) : (∀ dir ∈ dirs, ProperName dir) ∧ ProperName name := by
  rw [LiesAt] at h
  exact ⟨fun dir hdir => properName_of_mem (p := p) (by simp [h, hdir]),
    properName_of_mem (p := p) (by simp [h])⟩

theorem LiesAt.fileName?_eq {root p : Path} {dirs : List (List UInt8)} {name : List UInt8}
    (h : root.LiesAt dirs name p) : p.fileName? = some name :=
  fileName?_eq_some_iff.2 ⟨_, h⟩

/-- **The way to a path below an absolute root** has the directories and the name as its components. -/
theorem LiesAt.exists_way {root p : Path} {dirs : List (List UInt8)} {name : List UInt8}
    (hroot : root.isAbsolute = true) (h : root.LiesAt dirs name p) :
    ∃ way, p.relative? root = some way ∧ way.components = dirs.map .name ++ [.name name] := by
  obtain ⟨hdirs, hname⟩ := h.properName
  refine ⟨ofComponents (dirs.map .name ++ [.name name]), relative?_of_below hroot ?_, ?_⟩
  · rw [h, List.append_assoc]
  · refine components_ofComponents (List.forall_mem_append.2 ⟨fun c hc => ?_, ?_⟩)
    · obtain ⟨dir, hdir, rfl⟩ := List.mem_map.1 hc
      exact hdirs dir hdir
    · exact List.forall_mem_singleton.2 hname

/-- **The test of a path below an absolute root** has the directories on the way and the name without its
suffixes. -/
theorem testOf?_of_liesAt {root p : Path} {dirs : List (List UInt8)} {name : List UInt8}
    (hroot : root.isAbsolute = true) (h : root.LiesAt dirs name p) :
    testOf? root p = some (dirs.map .name ++ [.name (stem name)]) := by
  obtain ⟨way, hway, hcomponents⟩ := h.exists_way hroot
  rw [testOf?, hway, Option.map_some, components_withoutSuffixes hcomponents]

/-- Paths below absolute roots name the same test if and only if they lie in the same directories and
their names have the same stem. -/
theorem samePlace_iff_of_liesAt {root root' p p' : Path} {dirs dirs' : List (List UInt8)} {name name' : List UInt8}
    (hroot : root.isAbsolute = true) (hroot' : root'.isAbsolute = true)
    (h : root.LiesAt dirs name p) (h' : root'.LiesAt dirs' name' p') :
    samePlace root p root' p' = true ↔
      dirs = dirs' ∧ withoutSuffixes ⟨name⟩ = withoutSuffixes ⟨name'⟩ := by
  rw [samePlace_iff, testOf?_of_liesAt hroot h, testOf?_of_liesAt hroot' h',
    withoutSuffixes_name h.properName.2, withoutSuffixes_name h'.properName.2]
  simp only [Option.some.injEq, Path.mk.injEq]
  constructor
  · rintro ⟨test, htest, htest'⟩
    obtain ⟨hdirs, hlast⟩ := List.append_inj' (htest.trans htest'.symm) rfl
    exact ⟨List.map_injective_iff.2 Component.name_injective hdirs, Component.name.inj (List.cons.inj hlast).1⟩
  · rintro ⟨rfl, hstem⟩
    exact ⟨_, rfl, by rw [hstem]⟩

/-- Paths with one beginning are ordered as what comes after it. -/
theorem compare_append {above rest rest' : List Component} {p q : Path}
    (hp : p.components = above ++ rest) (hq : q.components = above ++ rest') :
    compare p q = compare (rest.map Component.key) (rest'.map Component.key) := by
  have hcompare : ∀ a b : Path, compare a b = compare a.key b.key := fun _ _ => rfl
  rw [hcompare, key, key, hp, hq, List.map_append, List.map_append]
  clear hp hq
  induction above with
  | nil => rfl
  | cons c above ih => simpa using ih

/-! ## Ways from a root to what a listing of it finds -/

theorem inner_viaText {c : Component} (h : c.Inner) : c.viaText.Inner := by
  cases c with
  | root => exact h.elim
  | here => exact h.elim
  | up => trivial
  | name bytes => exact ProperName.viaText h

/-- From a base to what lies below the base by way of its text: nothing to go, or some steps up from the first
name that is not valid UTF-8 and down again. -/
theorem exists_wayFrom {base : List Component} (h : ∀ c ∈ base, c.Inner) :
    ∃ before, (∀ c ∈ before, c.Inner) ∧ (before = [] → base.map Component.viaText = base) ∧
      ∀ rest, wayFrom [] (base.map Component.viaText ++ rest) base = some (before ++ rest) := by
  induction base with
  | nil =>
    refine ⟨[], by simp, fun _ => rfl, fun rest => ?_⟩
    cases rest <;> rfl
  | cons c base ih =>
    obtain ⟨hc, hbase⟩ := List.forall_mem_cons.1 h
    by_cases hsame : c.viaText = c
    · obtain ⟨before, hbefore, hnone, hway⟩ := ih hbase
      refine ⟨before, hbefore, fun hnil => by rw [List.map_cons, hsame, hnone hnil], fun rest => ?_⟩
      rw [List.map_cons, List.cons_append, hsame, wayFrom, if_pos (by simp)]
      exact hway rest
    · refine ⟨.up :: base.map (fun _ => .up) ++ (c :: base).map Component.viaText, ?_, by simp,
        fun rest => ?_⟩
      · intro d hd
        rcases List.mem_append.1 hd with hd | hd
        · rcases List.mem_cons.1 hd with rfl | hd
          · trivial
          · obtain ⟨_, -, rfl⟩ := List.mem_map.1 hd
            trivial
        · obtain ⟨old, hold, rfl⟩ := List.mem_map.1 hd
          exact inner_viaText (h old hold)
      · have hup : c ≠ .up := fun heq => hsame (heq ▸ rfl)
        have hhere : c ≠ .here := fun heq => hsame (heq ▸ rfl)
        rw [List.map_cons, List.cons_append, wayFrom, if_neg (by simp [hsame]), if_neg hhere, if_neg hup]
        simp

/-- **The way from an absolute root to what is listed below it** ends in the names below it. What comes before
these is the same for all that is listed, and it is something if the text of the root names another path. -/
theorem exists_way_of_viaText {root : Path} (hroot : root.isAbsolute = true) :
    ∃ before : List Component, (before = [] → root.viaText.components = root.components) ∧
      ∀ dirs name p, root.viaText.LiesAt dirs name p →
        ∃ way, p.relative? root = some way ∧
          way.components = before ++ (dirs.map .name ++ [.name name]) := by
  have hinner : ∀ c ∈ innerComponents (Text.splitOn slash root.bytes), c.Inner := fun c hc =>
    inner_of_mem_innerComponents hc
  obtain ⟨before, hbefore, hnone, hway⟩ := exists_wayFrom hinner
  refine ⟨before, fun hnil => ?_, fun dirs name p h => ?_⟩
  · rw [components_viaText, components_of_isAbsolute hroot, List.map_cons, hnone hnil]
    rfl
  obtain ⟨hdirs, hname⟩ := h.properName
  rw [LiesAt, components_viaText, components_of_isAbsolute hroot, List.append_assoc] at h
  have hp : p.isAbsolute = true := by
    rw [isAbsolute_iff, h]
    rfl
  refine ⟨ofComponents (before ++ (dirs.map .name ++ [.name name])), ?_, ?_⟩
  · have hfirst : Component.root.viaText = .root := rfl
    rw [relative?_of_isAbsolute hp hroot, h, components_of_isAbsolute hroot, List.map_cons,
      List.cons_append, hfirst, wayFrom, if_pos (by simp), hway]
    rfl
  · refine components_ofComponents fun c hc => ?_
    rcases List.mem_append.1 hc with hc | hc
    · exact hbefore c hc
    · rcases List.mem_append.1 hc with hc | hc
      · obtain ⟨dir, hdir, rfl⟩ := List.mem_map.1 hc
        exact hdirs dir hdir
      · rw [List.mem_singleton.1 hc]
        exact hname

/-- What two listed paths name below one root is the same test if and only if they lie in the same directories
and their names have the same stem. -/
theorem samePlace_iff_of_viaText {root p p' : Path} {dirs dirs' : List (List UInt8)}
    {name name' : List UInt8} (hroot : root.isAbsolute = true) (h : root.viaText.LiesAt dirs name p)
    (h' : root.viaText.LiesAt dirs' name' p') : samePlace root p root p' = true ↔
      dirs = dirs' ∧ withoutSuffixes ⟨name⟩ = withoutSuffixes ⟨name'⟩ := by
  obtain ⟨before, -, hbefore⟩ := exists_way_of_viaText hroot
  obtain ⟨way, hway, hcomponents⟩ := hbefore _ _ _ h
  obtain ⟨way', hway', hcomponents'⟩ := hbefore _ _ _ h'
  rw [← List.append_assoc] at hcomponents hcomponents'
  rw [samePlace, hway, hway', same_iff, components_withoutSuffixes hcomponents,
    components_withoutSuffixes hcomponents', withoutSuffixes_name h.properName.2,
    withoutSuffixes_name h'.properName.2, Path.mk.injEq]
  constructor
  · intro heq
    obtain ⟨hdirs, hlast⟩ := List.append_inj' heq rfl
    exact ⟨List.map_injective_iff.2 Component.name_injective (List.append_cancel_left hdirs),
      Component.name.inj (List.cons.inj hlast).1⟩
  · rintro ⟨rfl, hstem⟩
    rw [hstem]

/-! ## Spellings -/

theorem isAbsolute_congr {p q : Path} (h : p.same q = true) : p.isAbsolute = q.isAbsolute := by
  rw [Bool.eq_iff_iff, isAbsolute_iff, isAbsolute_iff, same_iff.1 h]

/-- The test of a path below an absolute parent does not depend on how the path is spelled. -/
theorem testOf?_congr {parent p q : Path} (hparent : parent.isAbsolute = true)
    (h : p.same q = true) : testOf? parent p = testOf? parent q := by
  simp only [testOf?, relative?, isAbsolute_congr h, same_iff.1 h, hparent, Bool.not_true,
    Bool.and_false, Bool.false_eq_true, if_false]

end RuleAudit.Path
