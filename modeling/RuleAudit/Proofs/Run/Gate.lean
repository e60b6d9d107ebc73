import RuleAudit.Proofs.Fixing.Comparing
import RuleAudit.Proofs.Run.ExitCode
import RuleAudit.Proofs.Run.Passing

/-!
# What is fixed in a run

The second phase is for targets that passed the first one, and it works on fresh copies. Which cases
reach it is told here from the answers of the first phase, and what the engine is asked in it holds
however the phase ends.
-/

namespace RuleAudit

/-! ## Cases -/

namespace World

theorem mem_casesOf {passing : OrderedMap Path (OrderedSet Path)} {config : Path}
    {pairs : List (Path × Path)} {case : GoldenCase} : case ∈ casesOf passing config pairs ↔
      case.config = config ∧ (case.target, case.golden) ∈ pairs ∧
        ∃ passed, passing.get? config = some passed ∧ passed.contains case.target = true := by
  rw [casesOf]
  cases passing.get? config with
  | none => simp
  | some passed =>
    simp only [List.mem_map, List.mem_filter, Option.some.injEq, exists_eq_left']
    constructor
    · rintro ⟨⟨target, golden⟩, ⟨hpair, hpassed⟩, rfl⟩
      exact ⟨rfl, hpair, hpassed⟩
    · rintro ⟨rfl, hpair, hpassed⟩
      exact ⟨(case.target, case.golden), ⟨hpair, hpassed⟩, rfl⟩

theorem mem_fixCases {w : World} {passing : OrderedMap Path (OrderedSet Path)}
    {golden : OrderedMap Path (List (Path × Path))} {case : GoldenCase} :
    case ∈ w.fixCases passing golden ↔ w.declaresFix case.config = true ∧
      ∃ pairs, (case.config, pairs) ∈ golden.entries ∧ (case.target, case.golden) ∈ pairs ∧
        ∃ passed, passing.get? case.config = some passed ∧ passed.contains case.target = true := by
  simp only [fixCases, List.mem_flatMap, List.mem_filter, Prod.exists, mem_casesOf]
  constructor
  · rintro ⟨config, pairs, ⟨hentry, hfix⟩, rfl, hpair, hpassed⟩
    exact ⟨hfix, pairs, hentry, hpair, hpassed⟩
  · rintro ⟨hfix, pairs, hentry, hpair, hpassed⟩
    exact ⟨case.config, pairs, ⟨hentry, hfix⟩, rfl, hpair, hpassed⟩

/-- The pairs of a config are for its targets. -/
theorem exists_targets_of_goldenPairs {w : World} {root : Path} {targets : OrderedMap Path (List Path)}
    {config : Path} {pairs : List (Path × Path)}
    (h : (config, pairs) ∈ (w.goldenPairs root targets).entries) :
    ∃ ts, (config, ts) ∈ targets.entries ∧ ∀ pair ∈ pairs, pair.1 ∈ ts := by
  obtain ⟨⟨config', ts⟩, hts, he⟩ := List.mem_map.1 h
  obtain ⟨rfl, rfl⟩ := Prod.mk.inj he
  refine ⟨ts, hts, fun pair hpair => ?_⟩
  obtain ⟨t, ht, hpair⟩ := List.mem_flatMap.1 hpair
  obtain ⟨x, -, rfl⟩ := List.mem_map.1 hpair
  exact ht

end World

namespace Course

/-- The cases of the second phase. -/
def cases (c : Course) : List GoldenCase :=
  c.detection.world.fixCases c.judged.passing c.golden

/-- The files when the engine is first asked to fix: those after the first phase, and the copies. -/
def copied (c : Course) : World := (c.detection.world.copyCases c.cases).2.2

/-- What a case of the second phase has to fulfil. -/
structure Eligible (c : Course) (case : GoldenCase) : Prop where
  paired : ∃ pairs, (case.config, pairs) ∈ c.golden.entries ∧ (case.target, case.golden) ∈ pairs
  declared : c.detection.world.declaresFix case.config = true
  passed : ∃ x ∈ c.detection.exchanges, x.config = case.config ∧ ∃ scan, x.reply = .found scan ∧
    c.detection.world.PassedIn x.invocation.targets scan case.target

variable {w : World} {engine : Engine} {schedule : Schedule} {settings : AuditSettings} {c : Course}

/-- The targets that the engine was asked about are those that were found for the config. -/
theorem targets_eq (hc : w.course engine schedule settings = .ok c) {x : Exchange}
    (hx : x ∈ c.detection.exchanges) {ts : List Path}
    (hts : (x.config, ts) ∈ c.detection.targets.entries) : x.invocation.targets = ts :=
  (Prod.mk.inj (OrderedMap.eq_of_mem (mem_targets hc hx).1 hts Std.ReflCmp.compare_self)).2

/-- **The cases are exactly the eligible ones.** -/
theorem mem_cases_iff (hc : w.course engine schedule settings = .ok c) {case : GoldenCase} :
    case ∈ c.cases ↔ c.Eligible case := by
  obtain ⟨roots, -, -, hjudge, hgolden, -⟩ := World.course_eq_ok hc
  have hdistinct := distinctConfigs_detection hc
  have houtcomes : ∀ e ∈ (Exchange.byConfig c.detection.exchanges).entries,
      ∃ ts, (e.1, ts) ∈ c.detection.targets.entries := by
    intro e he
    obtain ⟨x, hx, rfl⟩ := (Exchange.mem_entries_byConfig_iff hdistinct).1 he
    exact ⟨_, (mem_targets hc hx).1⟩
  have hpassed : ∀ {pairs}, (case.config, pairs) ∈ c.golden.entries →
      (case.target, case.golden) ∈ pairs →
      ((∃ passed, c.judged.passing.get? case.config = some passed ∧
        passed.contains case.target = true) ↔
        ∃ x ∈ c.detection.exchanges, x.config = case.config ∧ ∃ scan, x.reply = .found scan ∧
          c.detection.world.PassedIn x.invocation.targets scan case.target) := by
    intro pairs hentry hpair
    rw [hgolden] at hentry
    obtain ⟨ts, hts, htargets⟩ := World.exists_targets_of_goldenPairs hentry
    rw [World.passing_iff hjudge houtcomes (isAbsolute_targets hc) hts (htargets _ hpair)]
    constructor
    · rintro ⟨outcome, he, hnone, hin⟩
      obtain ⟨x, hx, hentry⟩ := (Exchange.mem_entries_byConfig_iff hdistinct).1 he
      obtain ⟨hconfig, rfl⟩ := Prod.mk.inj hentry
      obtain ⟨scan, hscan⟩ := Exchange.error_outcome_eq_none_iff.1 hnone
      have htargets : x.invocation.targets = ts := targets_eq hc hx (hconfig ▸ hts)
      rw [Exchange.scan_outcome hscan, ← htargets] at hin
      exact ⟨x, hx, hconfig, scan, hscan, hin⟩
    · rintro ⟨x, hx, hconfig, scan, hscan, hin⟩
      have htargets : x.invocation.targets = ts := targets_eq hc hx (hconfig ▸ hts)
      rw [← Exchange.scan_outcome hscan, htargets] at hin
      refine ⟨x.outcome, ?_, Exchange.error_outcome_eq_none_iff.2 ⟨scan, hscan⟩, hin⟩
      exact (Exchange.mem_entries_byConfig_iff hdistinct).2 ⟨x, hx, by rw [hconfig]⟩
  rw [cases, World.mem_fixCases]
  constructor
  · rintro ⟨hfix, pairs, hentry, hpair, hin⟩
    exact ⟨⟨pairs, hentry, hpair⟩, hfix, (hpassed hentry hpair).1 hin⟩
  · rintro ⟨⟨pairs, hentry, hpair⟩, hfix, hin⟩
    exact ⟨hfix, pairs, hentry, hpair, (hpassed hentry hpair).2 hin⟩

/-- The configs of two cases are one config if they have the same components. -/
theorem config_eq_of_same (hc : w.course engine schedule settings = .ok c) {case case' : GoldenCase}
    (h : case ∈ c.cases) (h' : case' ∈ c.cases) (hsame : case.config.same case'.config = true) :
    case.config = case'.config := by
  obtain ⟨pairs, hentry, -⟩ := ((mem_cases_iff hc).1 h).paired
  obtain ⟨pairs', hentry', -⟩ := ((mem_cases_iff hc).1 h').paired
  exact (Prod.mk.inj (OrderedMap.eq_of_mem hentry hentry' (Path.compare_eq_iff.2 hsame))).1

/-- What the engine is asked about the copies of a run. -/
theorem asked_to_fix (hc : w.course engine schedule settings = .ok c) {options : Options}
    {i : Invocation} (hi : i ∈ fixTasks (c.detection.world.copyCases c.cases).1 options) :
    i.options = options.fixing ∧ (∃ case ∈ c.cases, case.config = i.config) ∧
      ∀ p ∈ i.targets, (∃ case ∈ c.cases, case.config = i.config ∧
          c.detection.world.FreshCopy c.copied case.target p) ∧
        ∀ q, c.detection.world.isFile q = true → c.copied.locate q ≠ c.copied.locate p := by
  rcases hcopies : c.detection.world.copyCases c.cases with ⟨copies, failure, copied⟩
  obtain ⟨hgrows, hfresh, hprefix, -⟩ := World.copyCases_spec hcopies
  rw [hcopies] at hi
  have hcopied : c.copied = copied := by rw [Course.copied, hcopies]
  have hcase : ∀ cc ∈ copies, cc.case ∈ c.cases := fun cc hcc =>
    hprefix.subset (List.mem_map_of_mem hcc)
  obtain ⟨hoptions, ⟨first, hfirst, hconfig⟩, htargets⟩ := mem_fixTasks hi
  refine ⟨hoptions, ⟨first.case, hcase first hfirst, hconfig⟩, fun p hp => ?_⟩
  obtain ⟨cc, hcc, rfl, hsame⟩ := htargets p hp
  rw [hcopied]
  refine ⟨⟨cc.case, hcase cc hcc, ?_, hfresh cc hcc⟩, fun q hq => (hfresh cc hcc).locate_ne hgrows hq⟩
  rw [← hconfig] at hsame ⊢
  exact (config_eq_of_same hc (hcase first hfirst) (hcase cc hcc) hsame).symm

/-- The configs that declare a fix and have no pair of a target and a golden file. -/
def ungolden (c : Course) : List Path :=
  (c.golden.entries.filter fun e => e.2.isEmpty && c.detection.world.declaresFix e.1).map (·.1)

end Course

/-! ## Runs -/

namespace Session

end Session

end RuleAudit
