import RuleAudit.Proofs.Files.Reach
import RuleAudit.Proofs.Pairing.Roles

/-!
# Configs below a directory

A config is a regular file below the root with the last suffix of a config. A dot in front hides a file,
and a dot in front of the name of a directory hides what is directly in it. It does not hide what lies
further down, and the names of the root itself hide nothing.

A listing leaves a leading `.` of the root out, so what it finds is not below the root as that is spelled.
Then the names of the root count too, and the two that are looked at may be the file and the root. A root or a
file whose name is not valid UTF-8 is left out here.
-/

namespace RuleAudit

/-- The name starts with a dot. -/
def Hidden (name : List UInt8) : Prop := name.head? = some dot

instance (name : List UInt8) : Decidable (Hidden name) := inferInstanceAs (Decidable (_ = _))

theorem Component.isHidden_name_eq_false_iff {name : List UInt8} :
    (Component.name name).isHidden = false ↔ ¬ Hidden name := by
  cases name with
  | nil => simp [isHidden, Hidden]
  | cons c rest => by_cases hc : c = dot <;> simp [isHidden, Hidden, hc]

namespace Path

variable {root p : Path}

/-- Only the first component can be a `.`. -/
theorem head?_of_here_mem (h : .here ∈ p.components) : p.components.head? = some .here := by
  cases habs : p.isAbsolute with
  | true =>
    rw [components_of_isAbsolute habs] at h
    exact absurd rfl (ne_of_mem_innerComponents ((List.mem_cons.1 h).resolve_left (by simp))).2
  | false =>
    obtain ⟨first, rest, hpieces⟩ := List.exists_cons_of_ne_nil (Text.splitOn_ne_nil slash p.bytes)
    rw [components, habs, hpieces] at h ⊢
    obtain h | h := List.mem_append.1 h
    · cases h
    obtain h | h := List.mem_append.1 h
    · simp [rootOf, piecesComponents, Option.mem_toList.1 h]
    · exact absurd rfl (ne_of_mem_innerComponents h).2

theorem below?_of_components {rest : List Component} (h : p.components = root.components ++ rest) :
    root.below? p = some rest := by
  simp [below?, h]

/-- A path without a leading `.` is not below one with it. -/
theorem below?_of_here (hroot : root.components.head? = some .here) (hp : .here ∉ p.components) :
    root.below? p = none := by
  obtain ⟨rest, hrest⟩ := List.head?_eq_some_iff.1 hroot
  rw [below?, if_neg]
  intro hprefix
  exact hp ((List.isPrefixOf_iff_prefix.1 hprefix).subset (by simp [hrest]))

/-- Of the names below a root the last two can hide a path. -/
theorem isHiddenBelow_eq_false_iff {above : List Component} {dirs : List Name} {name : Name}
    (h : (root.below? p).getD p.components = above ++ (dirs ++ [name]).map Name.component)
    (habove : ∀ c ∈ above.getLast?, c.isHidden = false) :
    root.isHiddenBelow p = false ↔
      ¬ Hidden name.bytes ∧ ∀ dir ∈ dirs.getLast?, ¬ Hidden dir.bytes := by
  rw [isHiddenBelow, h]
  obtain rfl | ⟨dirs, dir, rfl⟩ := List.eq_nil_or_concat' dirs
  · obtain rfl | ⟨above, c, rfl⟩ := List.eq_nil_or_concat' above
    · simp [Name.component, Component.isHidden_name_eq_false_iff]
    · simpa [Name.component, Component.isHidden_name_eq_false_iff] using fun _ => habove
  · simp [Name.component, Component.isHidden_name_eq_false_iff]

/-- A root whose spelling is not in the way. Behind a leading `.` an empty piece would keep a listing from
starting, and the last name of the root itself would count for a directory below it. -/
structure PlainRoot (root : Path) : Prop where
  valid : Utf8.isValid root.bytes = true
  enterable : root.isAbsolute = true ∨ (Text.splitOn slash root.bytes).find? (· ≠ [dot]) ≠ some []
  last_not_hidden : root.components.head? = some .here →
    ∀ c ∈ (root.components.filter (· ≠ .here)).getLast?, c.isHidden = false

/-- **Without a leading `.`** no spelling is in the way. -/
theorem plainRoot_of_head? (hvalid : Utf8.isValid root.bytes = true) (hne : root.bytes ≠ [])
    (h : root.components.head? ≠ some .here) : PlainRoot root where
  valid := hvalid
  enterable := by
    refine or_iff_not_imp_left.2 fun habs hfind => ?_
    obtain ⟨first, rest, hpieces⟩ := List.exists_cons_of_ne_nil (Text.splitOn_ne_nil slash root.bytes)
    have hempty : first ≠ [] :=
      Text.ne_nil_of_splitOn_cons hne (by simpa [isAbsolute] using habs) hpieces
    by_cases hdot : first = [dot]
    · -- The first component would be the leading `.`.
      refine h ?_
      rw [components, hpieces, Bool.eq_false_iff.2 habs, hdot]
      rfl
    · rw [hpieces, List.find?_cons_of_pos (by simpa using hdot)] at hfind
      exact hempty (Option.some.inj hfind)
  last_not_hidden := fun hhere => absurd hhere h

end Path

namespace World

variable {w : World} {root start p : Path}

/-- A config lies below the start of a listing, in some directories: a file with the last suffix of a
config, of which neither the name nor that of its own directory starts with a dot. -/
structure ConfigAt (w : World) (start : Path) (dirs : List Name) (name : Name) : Prop where
  isFile : w.isFile (down start (dirs ++ [name])) = true
  suffix : ∃ ext ∈ Suffix.configSuffixes, Suffix.EndsIn [ext] (Utf8.decodeLossy name.bytes)
  name_not_hidden : ¬ Hidden name.bytes
  directory_not_hidden : ∀ dir ∈ dirs.getLast?, ¬ Hidden dir.bytes

/-- What is looked at for dots ends in the names below the start, and nothing before them hides. -/
theorem exists_above (hroot : root.PlainRoot)
    (hahead : ahead start = root.components.filter (· ≠ .here)) {names : List Name} (hne : names ≠ []) :
    ∃ above, (root.below? (down start names)).getD (down start names).components =
      above ++ names.map Name.component ∧ ∀ c ∈ above.getLast?, c.isHidden = false := by
  have hdown := components_down start hne
  rw [hahead] at hdown
  by_cases hhere : .here ∈ root.components
  · -- The listing leaves the `.` out, so all components are looked at.
    have hnone : root.below? (down start names) = none :=
      Path.below?_of_here (Path.head?_of_here_mem hhere) (by simp [hdown, Name.component])
    exact ⟨_, by rw [hnone, hdown, Option.getD_none],
      hroot.last_not_hidden (Path.head?_of_here_mem hhere)⟩
  · have hsame : root.components.filter (· ≠ .here) = root.components := by
      rw [List.filter_eq_self]
      exact fun c hc => by simpa using ne_of_mem_of_not_mem hc hhere
    refine ⟨[], ?_, by simp⟩
    rw [Path.below?_of_components (hsame ▸ hdown), Option.getD_some, List.nil_append]

theorem fileName?_down (start : Path) (dirs : List Name) (name : Name) :
    (down start (dirs ++ [name])).fileName? = some name.bytes := by
  refine Path.fileName?_eq_some_iff.2 ⟨ahead start ++ dirs.map Name.component, ?_⟩
  rw [components_down start (by simp), List.map_append, List.append_assoc]
  rfl

/-- **The configs below a directory**, in path order and each once. The listing starts from the root without
a leading `.`, and lists the files whose names are valid UTF-8. -/
theorem configs_of_directory (hdir : w.isDirectory root = true) (hroot : root.PlainRoot) :
    (w.configsBelow root).Pairwise Before ∧
      ∃ start, w.scope? root = some start ∧ ahead start = root.components.filter (· ≠ .here) ∧
        (∀ p ∈ w.configsBelow root, ∃ dirs name, p = down start (dirs ++ [name])) ∧
        ∀ dirs name, Utf8.isValid name.bytes = true →
          (down start (dirs ++ [name]) ∈ w.configsBelow root ↔ w.ConfigAt start dirs name) := by
  have hfile := isFile_eq_false_of_isDirectory hdir
  have hordered : (w.configsBelow root).Pairwise Before := by
    rw [configsBelow, hfile]
    exact (ascending_everythingBelow w root).filter _
  obtain ⟨start, hstart, hne, hahead⟩ :=
    exists_scope (Path.viaText_of_isValid hroot.valid) hroot.enterable hdir
  refine ⟨hordered, start, hstart, hahead, ?_, ?_⟩
  · intro p hp
    obtain ⟨⟨hmem, hisFile⟩, -⟩ := (mem_configsBelow_iff hfile).1 hp |>.imp_left List.mem_filter.1
    obtain ⟨dirs, name, rfl, -⟩ := (mem_everythingBelow_iff hstart hne (has_of_isFile hisFile)).1 hmem
    exact ⟨dirs, name, rfl⟩
  · intro dirs name hvalid
    -- The suffix and the dots are those of the last names on the way down.
    have hnames : dirs ++ [name] ≠ [] := by simp
    obtain ⟨above, hlooked, habove⟩ := exists_above hroot hahead hnames
    have hrole : ((∃ ext ∈ Suffix.configSuffixes, [ext] <:+ (down start (dirs ++ [name])).suffixes) ∧
          root.isHiddenBelow (down start (dirs ++ [name])) = false ↔
        (∃ ext ∈ Suffix.configSuffixes, Suffix.EndsIn [ext] (Utf8.decodeLossy name.bytes)) ∧
          ¬ Hidden name.bytes ∧ ∀ dir ∈ dirs.getLast?, ¬ Hidden dir.bytes) := by
      rw [← Path.isConfig_iff, Path.isConfig_iff_endsIn (fileName?_down start dirs name),
        Path.isHiddenBelow_eq_false_iff hlooked habove]
    rw [mem_configsBelow_iff hfile, filesBelow, List.mem_filter, hrole]
    constructor
    · rintro ⟨⟨-, hisFile⟩, hsuffix, hname, hdirectory⟩
      exact ⟨hisFile, hsuffix, hname, hdirectory⟩
    · rintro ⟨hisFile, hsuffix, hname, hdirectory⟩
      have hmem := (mem_everythingBelow_iff hstart hne (has_of_isFile hisFile)).2
        ⟨dirs, name, rfl, hvalid⟩
      exact ⟨⟨hmem, hisFile⟩, hsuffix, hname, hdirectory⟩

/-- The dot of the root hides nothing, and that of `.github` hides what is directly in it only. -/
theorem configs_of_dotted_directory :
    let files : List (List Text) := [["a.yaml".toList], [".b.yaml".toList],
      ["ci.yml".toList, ".github".toList], ["ci.yml".toList, "workflows".toList, ".github".toList]]
    let world : World :=
      { tree := Tree.ofTexts
          ([([".rules".toList], .directory), ([".github".toList, ".rules".toList], .directory),
            (["workflows".toList, ".github".toList, ".rules".toList], .directory)] ++
            files.map fun place => (place ++ [".rules".toList], .file [] false))
        home := []
        scratch := [] }
    let root : Path := ⟨"/.rules".toList⟩
    let deep : Path := ⟨"/.rules/.github/workflows/ci.yml".toList⟩
    world.isDirectory root = true ∧ root.PlainRoot ∧ deep ∈ world.configsBelow root ∧
      world.configsBelow root = [deep, ⟨"/.rules/a.yaml".toList⟩] := by
  intro files world root deep
  have hdir : world.isDirectory root = true := by decide +kernel
  have hroot : root.PlainRoot := Path.plainRoot_of_head? (by decide) (by decide) (by decide)
  have hscope : world.scope? root = some root := by decide +kernel
  obtain ⟨-, start, hstart, -, -, hmem⟩ := configs_of_directory hdir hroot
  obtain rfl := Option.some.inj (hscope.symm.trans hstart)
  have hdeep := hmem [⟨".github".toList, by decide⟩, ⟨"workflows".toList, by decide⟩]
    ⟨"ci.yml".toList, by decide⟩ (by decide)
  refine ⟨hdir, hroot, hdeep.2 ?_, by decide +kernel⟩
  exact
    { isFile := by decide +kernel
      suffix := ⟨".yml".toList, by decide, "ci".toList, ⟨'c', by decide, by decide⟩, by decide⟩
      name_not_hidden := by decide
      directory_not_hidden := by decide }

/-- A hidden directory does not hide what is in the directories below it. -/
theorem config_far_below_hidden_directory :
    let world : World :=
      { tree := Tree.ofTexts
          [(["r".toList], .directory), ([".github".toList, "r".toList], .directory),
            (["workflows".toList, ".github".toList, "r".toList], .directory),
            (["ci.yml".toList, "workflows".toList, ".github".toList, "r".toList], .file [] false)]
        home := []
        scratch := [] }
    let root : Path := ⟨"/r".toList⟩
    world.isDirectory root = true ∧
      ¬ ∀ p ∈ world.configsBelow root, ∀ names : List Name, p.components =
        root.components ++ names.map Name.component → ∀ name ∈ names, ¬ Hidden name.bytes := by
  intro world root
  refine ⟨by decide +kernel, fun h => ?_⟩
  exact h ⟨"/r/.github/workflows/ci.yml".toList⟩ (by decide +kernel)
    [⟨".github".toList, by decide⟩, ⟨"workflows".toList, by decide⟩, ⟨"ci.yml".toList, by decide⟩]
    (by decide) _ List.mem_cons_self (by decide)

end World

end RuleAudit
