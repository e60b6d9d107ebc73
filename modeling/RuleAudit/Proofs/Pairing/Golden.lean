import RuleAudit.Pairing.Golden
import RuleAudit.Proofs.Pairing.Targets

/-!
# Golden files of a config

All targets of a config name one test. A golden file that belongs to one of them names that test too, so
only the last suffix tells to which of them it belongs.
-/

namespace RuleAudit.World

variable {w : World} {configRoot targetRoot : Path} {configs : List Path}

theorem isGoldenFor_iff {base t f : Path} : isGoldenFor base t f = true ↔
    t.sameLastSuffix f = true ∧ Path.samePlace base t base f = true := by
  rw [isGoldenFor, Bool.and_eq_true]

/-- The pairs of a config are its targets with the golden files that belong to them. -/
theorem mem_goldenPairs_iff {targets : OrderedMap Path (List Path)} {c : Path} {ts : List Path}
    {ps : List (Path × Path)} (hts : targets.get? c = some ts)
    (hps : (w.goldenPairs targetRoot targets).get? c = some ps) {t f : Path} :
    (t, f) ∈ ps ↔ t ∈ ts ∧ f ∈ w.goldenFiles (w.baseOf targetRoot) ∧
      isGoldenFor (w.baseOf targetRoot) t f = true := by
  rw [goldenPairs, OrderedMap.get?_mapValues, hts, Option.map_some] at hps
  obtain rfl := Option.some.inj hps
  simp only [List.mem_flatMap, pairsOf, List.mem_map, List.mem_filter, Prod.mk.injEq]
  constructor
  · rintro ⟨_, ht, _, ⟨hf, hgolden⟩, rfl, rfl⟩
    exact ⟨ht, hf, hgolden⟩
  · rintro ⟨ht, hf, hgolden⟩
    exact ⟨t, ht, f, ⟨hf, hgolden⟩, rfl, rfl⟩

/-- **All targets of a config** have one test. -/
theorem testOf?_eq_of_mem_ownedTargets {ts : List Path}
    (hts : ts ∈ (w.ownedTargets configRoot configs targetRoot).values) {t t' : Path} (ht : t ∈ ts)
    (ht' : t' ∈ ts) :
    Path.testOf? (w.baseOf targetRoot) t = Path.testOf? (w.baseOf targetRoot) t' := by
  rcases ownedTargets_cases hts with hroot | ⟨hfile, c, -, rfl⟩
  · rw [hroot t ht, hroot t' ht']
  · rw [baseOf_eq_self hfile]
    obtain ⟨test, htest, hc⟩ := Path.samePlace_iff.1 (mem_targetsAmong_iff.1 ht).2.2
    obtain ⟨test', htest', hc'⟩ := Path.samePlace_iff.1 (mem_targetsAmong_iff.1 ht').2.2
    rw [htest, htest', ← hc, ← hc']

/-- **The targets of a golden file** among those of a config: if it belongs to one of them, it belongs to
all that share its last suffix and to no other one. So it belongs to one alone unless more of them share
that suffix. -/
theorem targets_of_golden {c : Path} {ts : List Path} {ps : List (Path × Path)}
    (hts : (w.ownedTargets configRoot configs targetRoot).get? c = some ts)
    (hps : (w.goldenPairs targetRoot (w.ownedTargets configRoot configs targetRoot)).get? c = some ps)
    {t f : Path} (hpair : (t, f) ∈ ps) :
    (∀ t', (t', f) ∈ ps ↔ t' ∈ ts ∧ t'.sameLastSuffix f = true) ∧
      ((∀ t₁ ∈ ts, ∀ t₂ ∈ ts, t₁.sameLastSuffix f = true → t₂.sameLastSuffix f = true → t₁ = t₂) →
        ∀ t', (t', f) ∈ ps → t' = t) := by
  obtain ⟨-, hf, hgolden⟩ := (mem_goldenPairs_iff hts hps).1 hpair
  have hall : ∀ t', (t', f) ∈ ps ↔ t' ∈ ts ∧ t'.sameLastSuffix f = true := by
    intro t'
    rw [mem_goldenPairs_iff hts hps, isGoldenFor_iff]
    constructor
    · exact fun ⟨ht', _, hsuffix, _⟩ => ⟨ht', hsuffix⟩
    · rintro ⟨ht', hsuffix⟩
      refine ⟨ht', hf, hsuffix, ?_⟩
      -- The other target has the test of the first one, which is that of the golden file.
      have htest := testOf?_eq_of_mem_ownedTargets (OrderedMap.mem_values_iff.2 ⟨c, hts⟩) ht'
        ((mem_goldenPairs_iff hts hps).1 hpair).1
      rw [Path.samePlace_iff, htest, ← Path.samePlace_iff]
      exact (isGoldenFor_iff.1 hgolden).2
  refine ⟨hall, fun hone t' hpair' => ?_⟩
  obtain ⟨ht, hsuffix⟩ := (hall t).1 hpair
  obtain ⟨ht', hsuffix'⟩ := (hall t').1 hpair'
  exact hone t' ht' t ht hsuffix' hsuffix

/-- Of two targets in two languages one has the golden file for its language. -/
theorem targets_of_golden_by_language :
    let world : World :=
      { tree := Tree.ofTexts
          [(["r".toList], .directory), (["a.yaml".toList, "r".toList], .file [] false),
            (["a.js".toList, "r".toList], .file [] false), (["a.py".toList, "r".toList], .file [] false),
            (["a.fixed.py".toList, "r".toList], .file [] false)]
        home := []
        scratch := [] }
    let root : Path := ⟨"/r".toList⟩
    let config : Path := ⟨"/r/a.yaml".toList⟩
    let script : Path := ⟨"/r/a.js".toList⟩
    let target : Path := ⟨"/r/a.py".toList⟩
    let golden : Path := ⟨"/r/a.fixed.py".toList⟩
    let targets := world.ownedTargets root [config] root
    ∃ ts ps, targets.get? config = some ts ∧ (world.goldenPairs root targets).get? config = some ps ∧
      ts = [script, target] ∧ (target, golden) ∈ ps ∧ (script, golden) ∉ ps ∧
      ∀ t, (t, golden) ∈ ps → t = target := by
  intro world root config script target golden targets
  have hts : targets.get? config = some [script, target] := by decide +kernel
  have hps : (world.goldenPairs root targets).get? config = some [(target, golden)] := by
    decide +kernel
  obtain ⟨hall, hone⟩ := targets_of_golden hts hps List.mem_cons_self
  refine ⟨_, _, hts, hps, rfl, List.mem_cons_self, ?_, hone (by decide)⟩
  rw [hall script]
  decide

/-- One golden file belongs to two targets of a config, which differ in a suffix before the last one. -/
theorem golden_of_two_targets :
    let world : World :=
      { tree := Tree.ofTexts
          [(["r".toList], .directory), (["a.yaml".toList, "r".toList], .file [] false),
            (["a.py".toList, "r".toList], .file [] false),
            (["a.x.py".toList, "r".toList], .file [] false),
            (["a.fixed.py".toList, "r".toList], .file [] false)]
        home := []
        scratch := [] }
    let root : Path := ⟨"/r".toList⟩
    let targets := world.ownedTargets root (world.configsBelow root) root
    ¬∀ c ps, (world.goldenPairs root targets).get? c = some ps →
      ∀ t t' f, (t, f) ∈ ps → (t', f) ∈ ps → t = t' := by
  intro world root targets hone
  have hps : (world.goldenPairs root targets).get? ⟨"/r/a.yaml".toList⟩ =
      some [(⟨"/r/a.py".toList⟩, ⟨"/r/a.fixed.py".toList⟩),
        (⟨"/r/a.x.py".toList⟩, ⟨"/r/a.fixed.py".toList⟩)] := by
    decide +kernel
  have heq := hone _ _ hps _ _ _ List.mem_cons_self (List.mem_cons_of_mem _ List.mem_cons_self)
  exact absurd heq (by decide)

end RuleAudit.World
