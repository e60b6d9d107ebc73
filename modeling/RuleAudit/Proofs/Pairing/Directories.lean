import RuleAudit.Proofs.Ordered.Membership
import RuleAudit.Proofs.Pairing.Targets

/-!
# Pairing below directories

With directories for roots, a config and a file belong together if and only if they lie in the same
directories of their roots and their names agree without suffixes. The test of a config is all that its
targets depend on, so configs fall into classes, and ways below the roots are all that counts.
-/

namespace RuleAudit

/-- A name whose suffixes allow a target: it has no suffix of a golden file, and it is that of a config
only if it is that of a fixture. -/
def Suffix.AllowsTarget (name : Text) : Prop :=
  golden ∉ ofName name ∧
    ((∃ ext ∈ configSuffixes, EndsIn [test, ext] name) ∨ ¬∃ ext ∈ configSuffixes, EndsIn [ext] name)

namespace Path

theorem mayBeTarget_iff_allowsTarget {p : Path} {name : List UInt8} (h : p.fileName? = some name) :
    p.mayBeTarget = true ↔ Suffix.AllowsTarget (Utf8.decodeLossy name) := by
  rw [mayBeTarget_iff, isConfigTest_iff_endsIn h, isConfig_iff_endsIn h, isGolden_iff, suffixes_eq h]
  rfl

theorem mayBeTarget_congr {p q : Path} (h : p.fileName? = q.fileName?) :
    p.mayBeTarget = q.mayBeTarget := by
  simp only [mayBeTarget, isConfigTest, isConfig, isGolden, lastSuffix?, suffixes, nameText?, h]

end Path

namespace World

/-- Configs and targets are looked for below directories, which are given by absolute paths. -/
structure DirectoryRoots (w : World) (configRoot targetRoot : Path) : Prop where
  isAbsolute_config : configRoot.isAbsolute = true
  isDirectory_config : w.isDirectory configRoot = true
  isAbsolute_target : targetRoot.isAbsolute = true
  isDirectory_target : w.isDirectory targetRoot = true

/-- The ways from a root to the files below it. -/
def waysBelow (w : World) (root : Path) : List Path :=
  (w.filesBelow root).filterMap fun p => p.relative? root

/-- What the targets of configs are. -/
structure IsPairing (w : World) (configRoot targetRoot : Path) (configs : List Path)
    (pairing : OrderedMap Path (List Path)) : Prop where
  key : ∀ c ∈ configs, ∃ ts, pairing.get? c = some ts
  ascending : ∀ ts ∈ pairing.values, ts.Pairwise Before
  listed : ∀ ts ∈ pairing.values, ∀ t ∈ ts, t ∈ w.everythingBelow targetRoot
  /-- What is listed below the target root is a target of a config if and only if it is a file in the same
  directories as the config, with the same name without suffixes, and with suffixes of a target. -/
  mem_iff : ∀ c ∈ configs, ∀ ts, pairing.get? c = some ts →
    ∀ dirs name, configRoot.LiesAt dirs name c →
      ∀ t ∈ w.everythingBelow targetRoot, ∀ dirs' name', targetRoot.LiesAt dirs' name' t →
        (t ∈ ts ↔ w.isFile t = true ∧ dirs = dirs' ∧
          Path.withoutSuffixes ⟨name⟩ = Path.withoutSuffixes ⟨name'⟩ ∧
            Suffix.AllowsTarget (Utf8.decodeLossy name'))
  classes : ∀ c ∈ configs, ∀ c' ∈ configs, ∀ ts ts', pairing.get? c = some ts →
    pairing.get? c' = some ts' → ts = ts' ∨ ts.Disjoint ts'

section

variable {w : World} {configRoot targetRoot : Path} {configs : List Path}

/-! ## The targets of one config -/

theorem DirectoryRoots.isFile_target (h : w.DirectoryRoots configRoot targetRoot) :
    w.isFile targetRoot = false :=
  isFile_eq_false_of_isDirectory h.isDirectory_target

theorem DirectoryRoots.baseOf_config (h : w.DirectoryRoots configRoot targetRoot) :
    w.baseOf configRoot = configRoot :=
  baseOf_eq_self (isFile_eq_false_of_isDirectory h.isDirectory_config)

/-- The targets of a config depend on its test alone. -/
theorem targetsAmong_congr {c c' : Path} {candidates : List Path}
    (h : Path.testOf? configRoot c = Path.testOf? configRoot c') :
    targetsAmong configRoot targetRoot candidates c =
      targetsAmong configRoot targetRoot candidates c' := by
  refine List.filter_congr fun t _ => ?_
  rw [Bool.eq_iff_iff, Path.samePlace_iff, Path.samePlace_iff, h]

theorem get?_ownedTargets (h : w.DirectoryRoots configRoot targetRoot) {c : Path}
    (hc : c ∈ configs) : (w.ownedTargets configRoot configs targetRoot).get? c =
      some (targetsAmong configRoot targetRoot (w.candidates targetRoot) c) := by
  rw [ownedTargets_eq h.isFile_target, h.baseOf_config]
  refine OrderedMap.get?_ofList_map (fun c c' hsame => targetsAmong_congr ?_) hc
  exact Path.testOf?_congr h.isAbsolute_config (Path.compare_eq_iff.1 hsame)

theorem DirectoryRoots.exists_targetsAmong (h : w.DirectoryRoots configRoot targetRoot)
    {ts : List Path} (hts : ts ∈ (w.ownedTargets configRoot configs targetRoot).values) :
    ∃ c ∈ configs, ts = targetsAmong configRoot targetRoot (w.candidates targetRoot) c := by
  have hsome := exists_targetsAmong_of_mem h.isFile_target hts
  rwa [h.baseOf_config] at hsome

theorem targetsAmong_sublist (c : Path) :
    (targetsAmong configRoot targetRoot (w.candidates targetRoot) c).Sublist
      (w.everythingBelow targetRoot) :=
  List.filter_sublist.trans List.filter_sublist

theorem targetsAmong_eq_or_disjoint {c c' : Path} {candidates : List Path} :
    targetsAmong configRoot targetRoot candidates c =
        targetsAmong configRoot targetRoot candidates c' ∨
      (targetsAmong configRoot targetRoot candidates c).Disjoint
        (targetsAmong configRoot targetRoot candidates c') := by
  by_cases h : Path.testOf? configRoot c = Path.testOf? configRoot c'
  · exact .inl (targetsAmong_congr h)
  · refine .inr fun t ht ht' => h ?_
    obtain ⟨test, htarget, htest⟩ := Path.samePlace_iff.1 (List.mem_filter.1 ht).2
    obtain ⟨test', htarget', htest'⟩ := Path.samePlace_iff.1 (List.mem_filter.1 ht').2
    rw [htest, htest', ← htarget, ← htarget']

/-! ## Ways -/

/-- What is listed and the ways to it end alike, and what comes before is the same for all that is listed. So
a path and the way to it have the same suffixes. -/
theorem exists_ways_of_mem (h : w.DirectoryRoots configRoot targetRoot) :
    ∃ above before, ∀ t ∈ w.everythingBelow targetRoot, ∃ way names,
      t.relative? targetRoot = some way ∧ t.components = above ++ names ∧
        way.components = before ++ names ∧ t.fileName? = way.fileName? := by
  obtain ⟨before, -, hbefore⟩ := Path.exists_way_of_viaText h.isAbsolute_target
  refine ⟨targetRoot.viaText.components, before, fun t ht => ?_⟩
  obtain ⟨dirs, name, -, hlies⟩ := exists_liesAt_of_mem_everythingBelow h.isAbsolute_target ht
  obtain ⟨way, hway, hcomponents⟩ := hbefore _ _ _ hlies
  refine ⟨way, dirs.map .name ++ [.name name], hway, ?_, hcomponents, ?_⟩
  · rw [hlies, List.append_assoc]
  · rw [← List.append_assoc] at hcomponents
    rw [hlies.fileName?_eq, Path.fileName?_eq_some_iff.2 ⟨_, hcomponents⟩]

theorem exists_way_of_mem (h : w.DirectoryRoots configRoot targetRoot) {t : Path}
    (ht : t ∈ w.everythingBelow targetRoot) :
    ∃ way, t.relative? targetRoot = some way ∧ t.fileName? = way.fileName? := by
  obtain ⟨_, _, hways⟩ := exists_ways_of_mem h
  obtain ⟨way, -, hway, -, -, hname⟩ := hways t ht
  exact ⟨way, hway, hname⟩

/-- The ways to some listed paths are in path order. -/
theorem ascending_ways (h : w.DirectoryRoots configRoot targetRoot) {ts : List Path}
    (hts : ts.Sublist (w.everythingBelow targetRoot)) :
    (ts.filterMap fun t => t.relative? targetRoot).Pairwise Before := by
  rw [List.pairwise_filterMap]
  have hascending := (ascending_everythingBelow w targetRoot).sublist hts
  obtain ⟨above, before, hways⟩ := exists_ways_of_mem h
  refine hascending.imp_of_mem ?_
  intro t t' ht ht' hbefore way hway way' hway'
  obtain ⟨_, names, hsome, ht, hnames, -⟩ := hways t (hts.subset ht)
  obtain ⟨_, names', hsome', ht', hnames', -⟩ := hways t' (hts.subset ht')
  obtain rfl := Option.some.inj (hway.symm.trans hsome)
  obtain rfl := Option.some.inj (hway'.symm.trans hsome')
  rwa [Before, Path.compare_append ht ht', ← Path.compare_append hnames hnames'] at *

/-- Which ways lead to targets of a config depends on its test and on the ways to files. -/
theorem mem_ways_targetsAmong_iff (h : w.DirectoryRoots configRoot targetRoot) {c way : Path} :
    way ∈ (targetsAmong configRoot targetRoot (w.candidates targetRoot) c).filterMap
        (fun t => t.relative? targetRoot) ↔
      way ∈ w.waysBelow targetRoot ∧ way.mayBeTarget = true ∧
        Path.testOf? configRoot c = some way.withoutSuffixes.components := by
  have hstep : ∀ t ∈ w.filesBelow targetRoot, t.relative? targetRoot = some way →
      (t.mayBeTarget = true ∧ Path.samePlace targetRoot t configRoot c = true ↔
        way.mayBeTarget = true ∧ Path.testOf? configRoot c = some way.withoutSuffixes.components) := by
    intro t ht hway
    obtain ⟨_, hsome, hname⟩ := exists_way_of_mem h (List.mem_filter.1 ht).1
    obtain rfl := Option.some.inj (hway.symm.trans hsome)
    rw [Path.mayBeTarget_congr hname, Path.samePlace_iff, Path.testOf?, hway, Option.map_some]
    simp only [Option.some.injEq, exists_eq_left']
  simp only [waysBelow, List.mem_filterMap, mem_targetsAmong_iff]
  constructor
  · rintro ⟨t, ⟨ht, hrest⟩, hway⟩
    exact ⟨⟨t, ht, hway⟩, (hstep t ht hway).1 hrest⟩
  · rintro ⟨⟨t, ht, hway⟩, hrest⟩
    exact ⟨t, ⟨ht, (hstep t ht hway).2 hrest⟩, hway⟩

/-- Ways lead to all listed paths. -/
theorem map_some_ways (h : w.DirectoryRoots configRoot targetRoot) {ts : List Path}
    (hts : ts.Sublist (w.everythingBelow targetRoot)) :
    (ts.filterMap fun t => t.relative? targetRoot).map some =
      ts.map fun t => t.relative? targetRoot := by
  rw [List.map_filterMap, List.filterMap_eq_map_iff_forall_eq_some]
  intro t ht
  obtain ⟨way, hway, -⟩ := exists_way_of_mem h (hts.subset ht)
  rw [hway]
  rfl

/-- **Moving the roots** moves the targets of a config with them. -/
theorem ways_targetsAmong_eq {w' : World} {configRoot' targetRoot' c c' : Path}
    (h : w.DirectoryRoots configRoot targetRoot) (h' : w'.DirectoryRoots configRoot' targetRoot')
    (hways : ∀ way, way ∈ w.waysBelow targetRoot ↔ way ∈ w'.waysBelow targetRoot')
    (hc : c.relative? configRoot = c'.relative? configRoot') :
    (targetsAmong configRoot targetRoot (w.candidates targetRoot) c).map
        (fun t => t.relative? targetRoot) =
      (targetsAmong configRoot' targetRoot' (w'.candidates targetRoot') c').map
        fun t => t.relative? targetRoot' := by
  have htest : Path.testOf? configRoot c = Path.testOf? configRoot' c' := by
    rw [Path.testOf?, Path.testOf?, hc]
  rw [← map_some_ways h (targetsAmong_sublist c), ← map_some_ways h' (targetsAmong_sublist c')]
  refine congrArg _ (eq_of_ascending (ascending_ways h (targetsAmong_sublist c))
    (ascending_ways h' (targetsAmong_sublist c')) fun way => ?_)
  rw [mem_ways_targetsAmong_iff h, mem_ways_targetsAmong_iff h', hways, htest]

/-! ## Pairing -/

theorem isPairing_ownedTargets (h : w.DirectoryRoots configRoot targetRoot) :
    w.IsPairing configRoot targetRoot configs
      (w.ownedTargets configRoot configs targetRoot) where
  key c hc := ⟨_, get?_ownedTargets h hc⟩
  ascending ts hts := by
    obtain ⟨c, -, rfl⟩ := h.exists_targetsAmong hts
    exact (ascending_everythingBelow w targetRoot).sublist (targetsAmong_sublist c)
  listed ts hts t ht := by
    obtain ⟨c, -, rfl⟩ := h.exists_targetsAmong hts
    exact (targetsAmong_sublist c).subset ht
  mem_iff c hc ts hts dirs name hlies t ht dirs' name' hlies' := by
    obtain rfl := Option.some.inj ((get?_ownedTargets h hc).symm.trans hts)
    rw [mem_targetsAmong_iff, filesBelow, List.mem_filter, Path.mayBeTarget_iff_allowsTarget hlies'.fileName?_eq,
      Path.samePlace_iff_of_liesAt h.isAbsolute_target h.isAbsolute_config hlies' hlies]
    simp only [ht, true_and, eq_comm (a := dirs'), eq_comm (a := Path.withoutSuffixes ⟨name'⟩)]
    tauto
  classes c hc c' hc' ts ts' hts hts' := by
    obtain rfl := Option.some.inj ((get?_ownedTargets h hc).symm.trans hts)
    obtain rfl := Option.some.inj ((get?_ownedTargets h hc').symm.trans hts')
    exact targetsAmong_eq_or_disjoint

/-- **The targets of configs below directories**: they are those of the pairing, and they stay the same
paths below their root when the configs and the files are found below other directories. -/
theorem targets_of_directories (h : w.DirectoryRoots configRoot targetRoot) :
    w.IsPairing configRoot targetRoot configs
        (w.ownedTargets configRoot configs targetRoot) ∧
      ∀ (w' : World) (configRoot' targetRoot' : Path) (configs' : List Path),
        w'.DirectoryRoots configRoot' targetRoot' →
        (∀ way, way ∈ w.waysBelow targetRoot ↔ way ∈ w'.waysBelow targetRoot') →
        ∀ c ∈ configs, ∀ c' ∈ configs', c.relative? configRoot = c'.relative? configRoot' →
          ((w.ownedTargets configRoot configs targetRoot).get? c).map
              (fun ts => ts.map fun t => t.relative? targetRoot) =
            ((w'.ownedTargets configRoot' configs' targetRoot').get? c').map
              fun ts => ts.map fun t => t.relative? targetRoot' := by
  refine ⟨isPairing_ownedTargets h, ?_⟩
  intro w' configRoot' targetRoot' configs' h' hways c hc c' hc' hway
  rw [get?_ownedTargets h hc, get?_ownedTargets h' hc', Option.map_some, Option.map_some,
    ways_targetsAmong_eq h h' hways hway]

end

/-- The same files below two directories whose paths start alike. The golden file, the config itself and
the file in another directory do not belong to the config. -/
theorem targets_of_moved_directory :
    let files : List (List Text) := [["a.yaml".toList, "py".toList], ["a.test.yaml".toList, "py".toList],
      ["a.fixed.py".toList, "py".toList], ["a.x.py".toList, "py".toList], ["a.py".toList]]
    let below (root : List Text) : List (List Text × Node) :=
      (root, .directory) :: ("py".toList :: root, .directory) ::
        files.map fun place => (place ++ root, .file [] false)
    let world : World :=
      { tree := Tree.ofTexts (below ["r".toList] ++ below ["r2".toList])
        home := []
        scratch := [] }
    let root : Path := ⟨"/r".toList⟩
    let moved : Path := ⟨"//r2/".toList⟩
    let config : Path := ⟨"/r/py/a.yaml".toList⟩
    let targets := world.ownedTargets root [config] root
    let movedTargets := world.ownedTargets root [config] moved
    world.DirectoryRoots root root ∧ world.DirectoryRoots root moved ∧
      world.IsPairing root moved [config] movedTargets ∧
      (targets.get? config).map (fun ts => ts.map fun t => t.relative? root) =
        (movedTargets.get? config).map (fun ts => ts.map fun t => t.relative? moved) ∧
      movedTargets.get? config =
        some [⟨"/r2/py/a.test.yaml".toList⟩, ⟨"/r2/py/a.x.py".toList⟩] := by
  intro files below world root moved config targets movedTargets
  have hroot : world.DirectoryRoots root root :=
    ⟨rfl, by decide +kernel, rfl, by decide +kernel⟩
  have hmoved : world.DirectoryRoots root moved :=
    ⟨rfl, hroot.isDirectory_config, rfl, by decide +kernel⟩
  have hways : world.waysBelow root = world.waysBelow moved := by decide +kernel
  refine ⟨hroot, hmoved, (targets_of_directories hmoved).1, ?_, by decide +kernel⟩
  exact (targets_of_directories hroot).2 world root moved [config] hmoved (fun way => by rw [hways])
    config List.mem_cons_self config List.mem_cons_self rfl

end World

end RuleAudit
