import RuleAudit.Proofs.Pairing.Directories
import RuleAudit.Proofs.Pairing.Golden

/-!
# Roles of files

The suffixes of a name decide whether its file is a config, a target or a golden file. A target is never a
golden file. Configs are told by their last suffix alone, so a fixture that is itself a config serves as
both, and so does a golden file for it.
-/

namespace RuleAudit

namespace Path

theorem suffixes_congr {p q : Path} (h : p.same q = true) : p.suffixes = q.suffixes := by
  rw [suffixes, suffixes, nameText?, nameText?, fileName?, fileName?, same_iff.1 h]

theorem mayBeTarget_iff_suffixes {p : Path} : p.mayBeTarget = true ↔
    Suffix.golden ∉ p.suffixes ∧ ((∃ ext ∈ Suffix.configSuffixes, [Suffix.test, ext] <:+ p.suffixes) ∨
      ¬∃ ext ∈ Suffix.configSuffixes, [ext] <:+ p.suffixes) := by
  rw [mayBeTarget_iff, isGolden_iff, isConfigTest_iff, isConfig_iff]

end Path

namespace World

variable {w : World} {configRoot targetRoot : Path} {configs : List Path}

/-! ## What a role says -/

theorem mem_configsBelow_iff (h : w.isFile configRoot = false) {c : Path} :
    c ∈ w.configsBelow configRoot ↔ c ∈ w.filesBelow configRoot ∧
      (∃ ext ∈ Suffix.configSuffixes, [ext] <:+ c.suffixes) ∧
        configRoot.isHiddenBelow c = false := by
  simp only [configsBelow, h, Bool.false_eq_true, if_false, List.mem_filter, Bool.and_eq_true,
    Bool.not_eq_true', Path.isConfig_iff, filesBelow, and_assoc]

theorem mayBeTarget_of_mem (h : w.isFile targetRoot = false) {ts : List Path}
    (hts : ts ∈ (w.ownedTargets configRoot configs targetRoot).values) {t : Path} (ht : t ∈ ts) :
    t.mayBeTarget = true := by
  obtain ⟨c, -, rfl⟩ := exists_targetsAmong_of_mem h hts
  exact (mem_targetsAmong_iff.1 ht).2.1

theorem golden_mem_suffixes_of_mem {targets : OrderedMap Path (List Path)} {ps : List (Path × Path)}
    (hps : ps ∈ (w.goldenPairs targetRoot targets).values) {p : Path × Path} (hp : p ∈ ps) :
    Suffix.golden ∈ p.2.suffixes := by
  obtain ⟨c, hc⟩ := OrderedMap.mem_values_iff.1 hps
  cases hts : targets.get? c with
  | none =>
    rw [goldenPairs, OrderedMap.get?_mapValues, hts] at hc
    cases hc
  | some ts =>
    obtain ⟨-, hf, -⟩ := (mem_goldenPairs_iff hts hc).1 hp
    exact Path.isGolden_iff.1 (Bool.and_eq_true_iff.1 (List.mem_filter.1 hf).2).2

/-! ## Files with two roles -/

/-- **Files with two roles** below directories. A config that is a target has the suffixes of a fixture and
none of a golden file, a config that is a golden file has the suffix of one, and no target is a golden
file. If both roots are one directory, all configs with the suffixes of a fixture alone are targets, each of
itself. -/
theorem roles_of_directories (hconfig : w.isDirectory configRoot = true)
    (htarget : w.isDirectory targetRoot = true) :
    let configs := w.configsBelow configRoot
    let targets := w.ownedTargets configRoot configs targetRoot
    let pairs := w.goldenPairs targetRoot targets
    (∀ c ∈ configs, ∀ ts ∈ targets.values, ∀ t ∈ ts, t.same c = true →
      Suffix.golden ∉ c.suffixes ∧
        ∃ ext ∈ Suffix.configSuffixes, [Suffix.test, ext] <:+ c.suffixes) ∧
    (∀ c ∈ configs, ∀ ps ∈ pairs.values, ∀ p ∈ ps, p.2.same c = true →
      Suffix.golden ∈ c.suffixes) ∧
    (∀ ts ∈ targets.values, ∀ t ∈ ts, ∀ ps ∈ pairs.values, ∀ p ∈ ps, p.2.same t = false) ∧
    (w.DirectoryRoots configRoot targetRoot → targetRoot = configRoot →
      ∀ c ∈ configs, Suffix.golden ∉ c.suffixes →
        (∃ ext ∈ Suffix.configSuffixes, [Suffix.test, ext] <:+ c.suffixes) →
          ∃ ts, targets.get? c = some ts ∧ c ∈ ts) := by
  intro configs targets pairs
  have hdirectory := isFile_eq_false_of_isDirectory htarget
  refine ⟨?_, ?_, ?_, ?_⟩
  · intro c hc ts hts t ht hsame
    obtain ⟨-, hext, -⟩ :=
      (mem_configsBelow_iff (isFile_eq_false_of_isDirectory hconfig)).1 hc
    have hmay := mayBeTarget_of_mem hdirectory hts ht
    rw [Path.mayBeTarget_iff_suffixes, Path.suffixes_congr hsame] at hmay
    exact ⟨hmay.1, hmay.2.resolve_right (not_not_intro hext)⟩
  · intro c _ ps hps p hp hsame
    exact Path.suffixes_congr hsame ▸ golden_mem_suffixes_of_mem hps hp
  · intro ts hts t ht ps hps p hp
    rw [← Bool.not_eq_true]
    intro hsame
    have hmay := mayBeTarget_of_mem hdirectory hts ht
    rw [Path.mayBeTarget_iff_suffixes, ← Path.suffixes_congr hsame] at hmay
    exact hmay.1 (golden_mem_suffixes_of_mem hps hp)
  · rintro hroots rfl c hc hgolden htest
    obtain ⟨hfile, -, -⟩ := (mem_configsBelow_iff hdirectory).1 hc
    refine ⟨_, get?_ownedTargets hroots hc, mem_targetsAmong_iff.2 ⟨hfile, ?_, ?_⟩⟩
    · exact Path.mayBeTarget_iff_suffixes.2 ⟨hgolden, .inl htest⟩
    · obtain ⟨way, hway, -⟩ := exists_way_of_mem hroots (List.mem_filter.1 hfile).1
      exact Path.samePlace_iff.2 ⟨_, by rw [Path.testOf?, hway]; rfl, by rw [Path.testOf?, hway]; rfl⟩

/-- Of three configs in one directory one is a fixture and one is golden. The fixture is a target of itself,
and no role but these two is shared. -/
theorem roles_of_fixture_and_golden :
    let world : World :=
      { tree := Tree.ofTexts
          [(["r".toList], .directory), (["x.yaml".toList, "r".toList], .file [] false),
            (["x.test.yaml".toList, "r".toList], .file [] false),
            (["x.fixed.yaml".toList, "r".toList], .file [] false)]
        home := []
        scratch := [] }
    let root : Path := ⟨"/r".toList⟩
    let config : Path := ⟨"/r/x.yaml".toList⟩
    let fixture : Path := ⟨"/r/x.test.yaml".toList⟩
    let configs := world.configsBelow root
    let targets := world.ownedTargets root configs root
    let pairs := world.goldenPairs root targets
    configs = [⟨"/r/x.fixed.yaml".toList⟩, fixture, config] ∧
      (∀ ts ∈ targets.values, config ∉ ts) ∧
      (∀ ps ∈ pairs.values, ∀ p ∈ ps, p.2 ≠ config) ∧
      (∃ ts, targets.get? fixture = some ts ∧ fixture ∈ ts) := by
  intro world root config fixture configs targets pairs
  have hdirectory : world.isDirectory root = true := by decide +kernel
  have hroots : world.DirectoryRoots root root :=
    ⟨rfl, hdirectory, rfl, hdirectory⟩
  have hconfigs : configs = [⟨"/r/x.fixed.yaml".toList⟩, fixture, config] := by decide +kernel
  have hconfig : config ∈ configs := by simp [hconfigs]
  have hmem : fixture ∈ configs := by simp [hconfigs]
  obtain ⟨htarget, hgolden, -, hfixture⟩ := roles_of_directories hdirectory hdirectory
  refine ⟨hconfigs, ?_, ?_, ?_⟩
  · intro ts hts ht
    exact absurd (htarget config hconfig ts hts config ht (Path.same_self _))
      (by decide +kernel)
  · rintro ps hps p hp heq
    exact absurd (hgolden config hconfig ps hps p hp (heq ▸ Path.same_self _))
      (by decide +kernel)
  · exact hfixture hroots rfl fixture hmem (by decide +kernel) (by decide +kernel)

/-- A fixture and a golden file that are configs by their last suffix are run as configs too. -/
theorem configs_with_other_roles :
    let world : World :=
      { tree := Tree.ofTexts
          [(["r".toList], .directory), (["x.yaml".toList, "r".toList], .file [] false),
            (["x.test.yaml".toList, "r".toList], .file [] false),
            (["x.fixed.yaml".toList, "r".toList], .file [] false)]
        home := []
        scratch := [] }
    let root : Path := ⟨"/r".toList⟩
    let configs := world.configsBelow root
    let targets := world.ownedTargets root configs root
    let pairs := world.goldenPairs root targets
    world.isDirectory root = true ∧
      (¬∀ c ∈ configs, ∀ ts ∈ targets.values, c ∉ ts) ∧
      ¬∀ c ∈ configs, ∀ ps ∈ pairs.values, ∀ p ∈ ps, p.2 ≠ c := by
  intro world root configs targets pairs
  exact ⟨by decide +kernel, by decide +kernel, by decide +kernel⟩

end World

end RuleAudit
