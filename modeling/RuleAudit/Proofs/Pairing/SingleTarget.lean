import RuleAudit.Proofs.Files.Normal
import RuleAudit.Proofs.Pairing.Directories
import RuleAudit.Proofs.Pairing.Golden

/-!
# A single target

A run on one file agrees with a run on the directory it is found in, as long as the directory of the file is
valid UTF-8. A target below a directory stays with its config when the file itself is the target root. The
golden files are then looked for in the directory of the file only, and this makes no difference: a golden file
of a target has the name of the target without suffixes and lies in the same directories, so it lies next to it.

A directory is looked for by its text. So one that is not valid UTF-8 is never found as a root, while a listing
of a directory above goes through it, and then the two runs differ.
-/

namespace RuleAudit.World

variable {w : World} {root configRoot targetRoot c p t : Path} {configs ts : List Path}

/-! ## Ownership -/

theorem lastName_eq {name : List UInt8} (h : p.fileName? = some name) : lastName p = ⟨name⟩ := by
  rw [lastName, h, Option.getD_some]

/-- Whether a single file belongs to a config does not depend on how the config is spelled. -/
theorem ownsFile_congr {c' : Path} (h : c.same c' = true) : ownsFile c t = ownsFile c' t := by
  have hname : lastName c = lastName c' := by
    rw [lastName, lastName, Path.fileName?, Path.fileName?, Path.same_iff.1 h]
  rw [ownsFile, ownsFile, hname]

/-- **A config owns the single file** that it owns below a directory: their names agree if their ways do. -/
theorem ownsFile_of_samePlace (hconfig : configRoot.isAbsolute = true)
    (htarget : targetRoot.isAbsolute = true) {dirs dirs' : List (List UInt8)} {name name' : List UInt8}
    (hc : configRoot.viaText.LiesAt dirs name c) (ht : targetRoot.viaText.LiesAt dirs' name' t)
    (hmay : t.mayBeTarget = true) (hsame : Path.samePlace targetRoot t configRoot c = true) :
    ownsFile c t = true := by
  obtain ⟨before, -, hways⟩ := Path.exists_way_of_viaText hconfig
  obtain ⟨before', -, hways'⟩ := Path.exists_way_of_viaText htarget
  obtain ⟨way, hway, hcomponents⟩ := hways _ _ _ hc
  obtain ⟨way', hway', hcomponents'⟩ := hways' _ _ _ ht
  rw [← List.append_assoc] at hcomponents hcomponents'
  rw [Path.samePlace, hway, hway', Path.same_iff, Path.components_withoutSuffixes hcomponents,
    Path.components_withoutSuffixes hcomponents'] at hsame
  have hstem : Path.stem name' = Path.stem name :=
    Component.name.inj (List.cons.inj (List.append_inj' hsame rfl).2).1
  rw [ownsFile, hmay, lastName_eq hc.fileName?_eq, lastName_eq ht.fileName?_eq,
    Path.withoutSuffixes_name hc.properName.2, Path.withoutSuffixes_name ht.properName.2, hstem,
    Bool.true_and]
  exact Path.same_self _

/-- The targets of a config, for two single files. -/
theorem get?_ownedTargets_files (hconfig : w.isFile configRoot = true) (ht : w.isFile t = true) :
    (w.ownedTargets configRoot configs t).get? configRoot = some [t] := by
  rw [ownedTargets, hconfig, ht, Bool.and_self, if_pos rfl, OrderedMap.ofList, List.foldl_cons,
    List.foldl_nil, OrderedMap.get?_insert, if_pos Std.ReflCmp.compare_self]

/-- The targets of a config, for a single file. -/
theorem get?_ownedTargets_file (hconfig : w.isFile configRoot = false) (ht : w.isFile t = true)
    (hc : c ∈ configs) : (w.ownedTargets configRoot configs t).get? c =
      some (if ownsFile c t then [t] else []) := by
  simp only [ownedTargets, hconfig, ht, Bool.false_and, Bool.false_eq_true, if_false, if_true]
  refine OrderedMap.get?_ofList_map (fun c c' hsame => ?_) hc
  rw [ownsFile_congr (Path.compare_eq_iff.1 hsame)]

/-- **A target below a directory stays with its config** when it is the target root itself. -/
theorem get?_ownedTargets_single (hconfig : configRoot.isAbsolute = true)
    (htarget : targetRoot.isAbsolute = true) (hdir : w.isFile targetRoot = false)
    (hc : c ∈ w.configsBelow configRoot)
    (hts : (w.ownedTargets configRoot (w.configsBelow configRoot) targetRoot).get? c = some ts)
    (ht : t ∈ ts) (hfile : w.isFile t = true) :
    (w.ownedTargets configRoot (w.configsBelow configRoot) t).get? c = some [t] := by
  cases hroot : w.isFile configRoot with
  | true =>
    -- Two single files belong together, whatever the config owns below the directory.
    rw [configsBelow, hroot, if_pos rfl, List.mem_singleton] at hc
    rw [hc]
    exact get?_ownedTargets_files hroot hfile
  | false =>
    have htargets : ts = targetsAmong configRoot targetRoot (w.candidates targetRoot) c := by
      rw [ownedTargets_eq hdir, baseOf_eq_self hroot, OrderedMap.get?_ofList_map _ hc] at hts
      · exact (Option.some.inj hts).symm
      · intro c c' hsame
        exact targetsAmong_congr (Path.testOf?_congr hconfig (Path.compare_eq_iff.1 hsame))
    obtain ⟨hbelow, hmay, hsame⟩ := mem_targetsAmong_iff.1 (htargets ▸ ht)
    have hlisted : c ∈ w.everythingBelow configRoot := by
      rw [configsBelow, hroot] at hc
      exact (List.mem_filter.1 hc).1
    obtain ⟨dirs, name, -, hlies⟩ := exists_liesAt_of_mem_everythingBelow hconfig hlisted
    obtain ⟨dirs', name', -, hlies'⟩ :=
      exists_liesAt_of_mem_everythingBelow htarget (List.mem_filter.1 hbelow).1
    rw [get?_ownedTargets_file hroot hfile hc, if_pos]
    exact ownsFile_of_samePlace hconfig htarget hlies hlies' hmay hsame

/-! ## Golden files -/

theorem liesAt_down (h : p.isAbsolute = true) (dirs : List Name) (name : Name) :
    p.LiesAt (dirs.map Name.bytes) name.bytes (down p (dirs ++ [name])) := by
  rw [Path.LiesAt, components_down p (by simp), ahead_eq_components (not_isCurrent h), List.map_append,
    List.map_map, List.append_assoc]
  rfl

/-- The golden files of a target lie next to it, under its name without suffixes. -/
theorem mem_goldenFiles_iff (hroot : root.Normal) {dirs : List Name} {name : Name} {f : Path} :
    (f ∈ w.goldenFiles root ∧ isGoldenFor root (down root.viaText (dirs ++ [name])) f = true) ↔
      ∃ name' : Name, Utf8.isValid name'.bytes = true ∧ f = down root.viaText (dirs ++ [name']) ∧
        w.isFile f = true ∧ f.isGolden = true ∧
          (down root.viaText (dirs ++ [name])).sameLastSuffix f = true ∧
            Path.withoutSuffixes ⟨name.bytes⟩ = Path.withoutSuffixes ⟨name'.bytes⟩ := by
  have hvia := hroot.viaText.isAbsolute
  have hplace : ∀ dirs' (name' : Name), Path.samePlace root (down root.viaText (dirs ++ [name])) root
      (down root.viaText (dirs' ++ [name'])) = true ↔ dirs = dirs' ∧
        Path.withoutSuffixes ⟨name.bytes⟩ = Path.withoutSuffixes ⟨name'.bytes⟩ := by
    have hinjective : Function.Injective Name.bytes := fun _ _ => Name.ext
    intro dirs' name'
    rw [Path.samePlace_iff_of_viaText hroot.isAbsolute (liesAt_down hvia dirs name)
      (liesAt_down hvia dirs' name'), (List.map_injective_iff.2 hinjective).eq_iff]
  simp only [goldenFiles, List.mem_filter, Bool.and_eq_true, isGoldenFor_iff]
  constructor
  · rintro ⟨⟨hlisted, hfile, hgolden⟩, hsuffix, hsame⟩
    obtain ⟨dirs', name', rfl, hvalid⟩ :=
      (mem_everythingBelow_normal hroot (has_of_isFile hfile)).1 hlisted
    obtain ⟨rfl, hstem⟩ := (hplace dirs' name').1 hsame
    exact ⟨name', hvalid, rfl, hfile, hgolden, hsuffix, hstem⟩
  · rintro ⟨name', hvalid, rfl, hfile, hgolden, hsuffix, hstem⟩
    have hlisted := (mem_everythingBelow_normal hroot (has_of_isFile hfile)).2
      ⟨dirs, name', rfl, hvalid⟩
    exact ⟨⟨hlisted, hfile, hgolden⟩, hsuffix, (hplace dirs name').2 ⟨rfl, hstem⟩⟩

/-- **The golden files of a target** are the same, in the same order, below a root and below the directory of
the target, if its text names that directory. -/
theorem pairsOf_goldenFiles (hroot : root.Normal) {dirs : List Name} (name : Name)
    (hvia : (down root.viaText dirs).viaText = down root.viaText dirs) :
    pairsOf root (w.goldenFiles root) (down root.viaText (dirs ++ [name])) =
      pairsOf (down root.viaText dirs) (w.goldenFiles (down root.viaText dirs))
        (down root.viaText (dirs ++ [name])) := by
  have hascending : ∀ base, ((w.goldenFiles base).filter fun f =>
      isGoldenFor base (down root.viaText (dirs ++ [name])) f).Pairwise Before := fun base =>
    ((ascending_everythingBelow w base).filter _).filter _
  rw [pairsOf, pairsOf, eq_of_ascending (hascending root) (hascending (down root.viaText dirs))]
  intro f
  -- The directory of the target is a normal path too, and the target is one name below it.
  have hdown : ∀ name, down root.viaText (dirs ++ [name]) =
      down (down root.viaText dirs).viaText ([] ++ [name]) := fun name => by
    rw [hvia, down_append, List.nil_append]
  rw [List.mem_filter, List.mem_filter, mem_goldenFiles_iff hroot]
  simp only [hdown]
  rw [mem_goldenFiles_iff (normal_down hroot.viaText dirs)]

/-- What is below a directory that its text does not name is never found from the directory on. -/
theorem pairsOf_of_not_isValid {base : Path} (hbase : base.Normal)
    (hvalid : ¬ Utf8.isValid base.bytes = true) (name : Name) :
    pairsOf base (w.goldenFiles base) (down base [name]) = [] := by
  rw [pairsOf, List.map_eq_nil_iff, List.filter_eq_nil_iff]
  intro f hf hgolden
  obtain ⟨hlisted, hrest⟩ := List.mem_filter.1 hf
  obtain ⟨dirs, name', -, hlies⟩ := exists_liesAt_of_mem_everythingBelow hbase.isAbsolute hlisted
  obtain ⟨before, hbefore, hways⟩ := Path.exists_way_of_viaText hbase.isAbsolute
  obtain ⟨way, hway, hcomponents⟩ := hways _ _ _ hlies
  rw [← List.append_assoc] at hcomponents
  have hnext : base.LiesAt [] name.bytes (down base [name]) := liesAt_down hbase.isAbsolute [] name
  have hsame := (isGoldenFor_iff.1 hgolden).2
  rw [Path.samePlace_iff, Path.testOf?_of_liesAt hbase.isAbsolute hnext, Path.testOf?, hway, Option.map_some, Path.components_withoutSuffixes hcomponents] at hsame
  obtain ⟨test, htest, htest'⟩ := hsame
  -- The way to the target is one name, so there is nothing before the names of the other way.
  have hheads := (List.append_inj' (Option.some.inj (htest'.trans htest.symm)) rfl).1
  obtain ⟨place, rfl⟩ := hbase
  obtain ⟨place', hplace'⟩ := Path.Normal.viaText ⟨place, rfl⟩
  have hcomponents' := hbefore (List.append_eq_nil_iff.1 hheads).1
  rw [hplace'] at hcomponents'
  obtain rfl := Place.eq_of_same_path (Path.same_iff.2 hcomponents')
  exact hvalid (Utf8.viaText_eq_self_iff.1 (congrArg Path.bytes hplace'))

/-- The pairs of one of several targets. -/
theorem filter_flatMap_pairsOf (base : Path) (golden : List Path) (hts : ts.Nodup) (ht : t ∈ ts) :
    (ts.flatMap (pairsOf base golden)).filter (fun p => p.1 = t) = pairsOf base golden t := by
  have hself : (pairsOf base golden t).filter (fun p => p.1 = t) = pairsOf base golden t := by
    simp [pairsOf, List.filter_map, Function.comp_def]
  have hother : ∀ t', t' ≠ t → (pairsOf base golden t').filter (fun p => p.1 = t) = [] := by
    intro t' hne
    simp [pairsOf, List.filter_map, Function.comp_def, hne]
  obtain ⟨before, after, rfl⟩ := List.append_of_mem ht
  rw [List.nodup_middle, List.nodup_cons, List.mem_append, not_or] at hts
  have hnone : ∀ l : List Path, t ∉ l →
      (l.flatMap (pairsOf base golden)).filter (fun p => p.1 = t) = [] := by
    intro l hl
    rw [List.filter_flatMap, List.flatMap_eq_nil_iff]
    exact fun t' ht' => hother t' (ne_of_mem_of_not_mem ht' hl)
  rw [List.flatMap_append, List.flatMap_cons, List.filter_append, List.filter_append, hself,
    hnone before hts.1.1, hnone after hts.1.2, List.nil_append, List.append_nil]

/-! ## One file and its directory -/

/-- Ways to what lies next to a single file are measured from its directory. -/
theorem baseOf_down (hroot : root.Normal) {dirs : List Name} {name : Name}
    (hfile : w.isFile (down root (dirs ++ [name])) = true) :
    w.baseOf (down root (dirs ++ [name])) = down root dirs := by
  have hne := (extends_of_isAbsolute (normal_down hroot dirs).isAbsolute).bytes_ne_nil
  rw [baseOf, if_pos hfile, parent?_down hroot]
  simp [hne]

/-- **One file and its directory** agree. A target of a config below a directory is all that the config owns
when the target is the root itself. If the directory of the target is valid UTF-8, the golden files that are
then found from this directory on are those that belong to the target below the first one, in the same order.
Otherwise none is found. -/
theorem single_target_of_directory (hconfig : configRoot.isAbsolute = true) (htarget : targetRoot.Normal)
    (hdir : w.isDirectory targetRoot = true) :
    let configs := w.configsBelow configRoot
    let targets := w.ownedTargets configRoot configs targetRoot
    ∀ c ∈ configs, ∀ ts, targets.get? c = some ts → ∀ t ∈ ts,
      let single := w.ownedTargets configRoot configs t
      single.get? c = some [t] ∧ t.parent? = some (w.baseOf t) ∧
        ∃ ps, (w.goldenPairs targetRoot targets).get? c = some ps ∧
          (w.goldenPairs t single).get? c =
            some (if Utf8.isValid (w.baseOf t).bytes then ps.filter fun p => p.1 = t else []) := by
  intro configs targets c hc ts hts t ht single
  have hroot : w.isFile targetRoot = false := isFile_eq_false_of_isDirectory hdir
  obtain ⟨c', -, htargets⟩ := exists_targetsAmong_of_mem hroot (OrderedMap.mem_values_iff.2 ⟨c, hts⟩)
  have hsublist : ts.Sublist (w.everythingBelow targetRoot) := htargets ▸ targetsAmong_sublist c'
  have hfile : w.isFile t = true := by
    rw [htargets] at ht
    exact (List.mem_filter.1 (mem_targetsAmong_iff.1 ht).1).2
  have hsingle : single.get? c = some [t] :=
    get?_ownedTargets_single hconfig htarget.isAbsolute hroot hc hts ht hfile
  obtain ⟨dirs, name, rfl, -⟩ :=
    (mem_everythingBelow_normal htarget (has_of_isFile hfile)).1 (hsublist.subset ht)
  have hbase := baseOf_down htarget.viaText hfile
  have hnodup : ts.Nodup :=
    nodup_of_ascending ((ascending_everythingBelow w targetRoot).sublist hsublist)
  refine ⟨hsingle, by rw [hbase, parent?_down htarget.viaText],
    ts.flatMap (pairsOf targetRoot (w.goldenFiles targetRoot)), ?_, ?_⟩
  · rw [goldenPairs, OrderedMap.get?_mapValues, hts, baseOf_eq_self hroot]
    rfl
  rw [goldenPairs, OrderedMap.get?_mapValues, hsingle, hbase, Option.map_some, List.flatMap_singleton]
  refine congrArg some ?_
  split
  next hvalid =>
    rw [filter_flatMap_pairsOf _ _ hnodup ht,
      pairsOf_goldenFiles htarget name (Path.viaText_of_isValid hvalid)]
  next hvalid =>
    rw [← down_append]
    exact pairsOf_of_not_isValid (normal_down htarget.viaText dirs) hvalid name

/-- Below a directory that is spelled with a detour, a target in a directory of its own: the golden file next
to it is its own, and the one further up is not. -/
theorem single_target_of_normalized_directory :
    let world : World :=
      { tree := Tree.ofTexts
          [(["r".toList], .directory), (["py".toList, "r".toList], .directory),
            (["a.yaml".toList, "py".toList, "r".toList], .file [] false),
            (["a.py".toList, "py".toList, "r".toList], .file [] false),
            (["a.x.py".toList, "py".toList, "r".toList], .file [] false),
            (["a.fixed.py".toList, "py".toList, "r".toList], .file [] false),
            (["a.fixed.py".toList, "r".toList], .file [] false)]
        home := []
        scratch := [] }
    let root : Path := world.normalize ⟨"/r/py/..//".toList⟩
    let config : Path := ⟨"/r/py/a.yaml".toList⟩
    let target : Path := ⟨"/r/py/a.py".toList⟩
    let golden : Path := ⟨"/r/py/a.fixed.py".toList⟩
    let single := world.ownedTargets root [config] target
    world.configsBelow root = [config] ∧ root.Normal ∧
      (world.ownedTargets root [config] root).get? config =
        some [target, ⟨"/r/py/a.x.py".toList⟩] ∧
      single.get? config = some [target] ∧
      (world.goldenPairs target single).get? config = some [(target, golden)] := by
  intro world root config target golden single
  have hroot : root.Normal := normal_normalize (by decide +kernel)
  have hconfigs : world.configsBelow root = [config] := by decide +kernel
  have hts : (world.ownedTargets root [config] root).get? config =
      some [target, ⟨"/r/py/a.x.py".toList⟩] := by decide +kernel
  have hps : (world.goldenPairs root (world.ownedTargets root [config] root)).get? config =
      some [(target, golden), (⟨"/r/py/a.x.py".toList⟩, golden)] := by decide +kernel
  have hbase : Utf8.isValid (world.baseOf target).bytes = true := by decide +kernel
  have hall := single_target_of_directory (w := world) hroot.isAbsolute hroot (by decide +kernel)
  rw [hconfigs] at hall
  obtain ⟨hsingle, -, ps, hpairs, hgolden⟩ :=
    hall config List.mem_cons_self _ hts target List.mem_cons_self
  obtain rfl := Option.some.inj (hps.symm.trans hpairs)
  rw [if_pos hbase] at hgolden
  exact ⟨hconfigs, hroot, hts, hsingle, hgolden⟩

/-- In a directory that is not valid UTF-8 the golden file next to a target is found from above only. -/
theorem single_target_below_stray_byte :
    let stray : Name := ⟨[0xFE], by decide⟩
    let below (name : Text) : Place := Place.ofTexts [name] ++ [stray] ++ Place.ofTexts ["r".toList]
    let world : World :=
      { tree := OrderedMap.ofList
          [(Place.ofTexts ["r".toList], .directory), (stray :: Place.ofTexts ["r".toList], .directory),
            (below "a.yaml".toList, .file [] false), (below "a.py".toList, .file [] false),
            (below "a.fixed.py".toList, .file [] false)]
        home := []
        scratch := [] }
    let root : Path := ⟨"/r".toList⟩
    let config : Path := (below "a.yaml".toList).path
    let target : Path := (below "a.py".toList).path
    let golden : Path := (below "a.fixed.py".toList).path
    let targets := world.ownedTargets root [config] root
    let single := world.ownedTargets root [config] target
    world.configsBelow root = [config] ∧ root.Normal ∧ world.isDirectory root = true ∧
      targets.get? config = some [target] ∧ single.get? config = some [target] ∧
      (world.goldenPairs root targets).get? config = some [(target, golden)] ∧
      (world.goldenPairs target single).get? config = some [] := by
  intro stray below world root config target golden targets single
  have hroot : root.Normal := ⟨Place.ofTexts ["r".toList], by decide⟩
  exact ⟨by decide +kernel, hroot, by decide +kernel, by decide +kernel, by decide +kernel,
    by decide +kernel, by decide +kernel⟩

end RuleAudit.World
