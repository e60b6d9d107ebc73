import RuleAudit.Proofs.Run.Gate

/-!
# Where the configs of a run end up

Every config that targets are looked for has its place in the report: among the configs without targets,
among those whose engine failed, or among those with verdicts. The second phase adds the failures of
invocations for configs that have verdicts, so no config fails twice. A report names configs by their texts, so
this can be seen in it as long as no two configs share one. Of configs that do, only the last one's verdicts stay.
-/

namespace RuleAudit

/-! ## Failures -/

/-- What a report says about an outcome with an error, with the config that it is kept under. -/
def failureOf (e : Path × Outcome) : Option FailedConfig :=
  e.2.error.map fun message => ⟨e.1.display, message, e.2.scan.raw⟩

namespace Exchange

/-- What a report says about an exchange that did not end well: the message and the document of its reply,
with the config. -/
def failure? (x : Exchange) : Option FailedConfig :=
  match x.reply with
  | .found _ => none
  | .failed e => some ⟨x.config.display, e.message, e.document?.getD .null⟩
  | .crashed reason =>
    some ⟨x.config.display, reason.getD "engine invocation panicked".toList, .null⟩

/-- The outcome of an exchange keeps what a report says about it. -/
theorem failure?_eq (x : Exchange) : x.failure? = failureOf (x.config, x.outcome) := by
  obtain ⟨invocation, reply⟩ := x
  cases reply <;> rfl

theorem failure?_eq_none_iff {x : Exchange} :
    x.failure? = none ↔ ∃ scan, x.reply = .found scan := by
  rw [failure?_eq, failureOf, Option.map_eq_none_iff, error_outcome_eq_none_iff]

theorem config_of_failure {x : Exchange} {failed : FailedConfig} (h : x.failure? = some failed) :
    failed.config = x.config.display := by
  rw [failure?_eq] at h
  obtain ⟨message, -, rfl⟩ := Option.map_eq_some_iff.1 h
  rfl

/-- The configs of failures are those of the exchanges that did not end well, in order. -/
theorem map_config_failures (xs : List Exchange) :
    (xs.filterMap failure?).map FailedConfig.config =
      (xs.filter fun x => x.failure?.isSome).map fun x => x.config.display := by
  induction xs with
  | nil => rfl
  | cons x rest ih =>
    cases hfailure : x.failure? with
    | none => simp [hfailure, ih]
    | some failed => simp [hfailure, ih, config_of_failure hfailure]

variable {xs : List Exchange} (h : DistinctConfigs (xs.map Exchange.invocation))
include h

/-- The config of an exchange is among the failures if and only if this exchange failed, unless another config has
the same text. -/
theorem mem_failures_iff {x : Exchange} (hx : x ∈ xs)
    (hown : ∀ y ∈ xs, y.config.display = x.config.display → y.config = x.config) :
    x.config.display ∈ (xs.filterMap failure?).map FailedConfig.config ↔
      ¬ ∃ scan, x.reply = .found scan := by
  rw [map_config_failures, List.mem_map, ← failure?_eq_none_iff, ← ne_eq, ← Option.isSome_iff_ne_none]
  constructor
  · intro hfailed
    obtain ⟨y, hy, htext⟩ := hfailed
    obtain ⟨hy, hsome⟩ := List.mem_filter.1 hy
    obtain rfl := eq_of_config_eq h hy hx (hown y hy htext)
    exact hsome
  · intro hsome
    exact ⟨x, List.mem_filter.2 ⟨hx, hsome⟩, rfl⟩

theorem nodup_failures
    (hown : ∀ x ∈ xs, ∀ y ∈ xs, x.config.display = y.config.display → x.config = y.config) :
    ((xs.filterMap failure?).map FailedConfig.config).Nodup := by
  have hdistinct : (xs.map fun x => x.config.display).Nodup :=
    List.Nodup.map_on (fun x hx y hy htext => eq_of_config_eq h hx hy (hown x hx y hy htext))
      (nodup_configs h).of_map
  rw [map_config_failures]
  exact hdistinct.sublist (List.filter_sublist.map _)

/-- The failures of the outcomes by config are those of the exchanges in the order of their configs. -/
theorem failures_byConfig :
    (byConfig xs).entries.filterMap failureOf = (inOrder xs).filterMap failure? := by
  rw [entries_byConfig h, List.filterMap_map]
  exact List.filterMap_congr fun x _ => (failure?_eq x).symm

end Exchange

theorem failures_errorSteps (outcomes : OrderedMap Path Outcome) :
    (errorSteps outcomes).filterMap Report.Step.failure? = outcomes.entries.filterMap failureOf := by
  rw [errorSteps, List.filterMap_filterMap]
  refine List.filterMap_congr fun e _ => ?_
  rw [failureOf]
  cases herror : e.2.error <;> simp [herror, Report.Step.failure?]

/-! ## Judged answers -/

section Steps

variable {w : World} {targets : OrderedMap Path (List Path)} {entries : List (Path × Outcome)}
  {steps : List Report.Step} (h : List.Forall₂ (Judges w targets) entries steps)
include h

/-- The failures among the steps are those of the answers, in order. -/
theorem failures_eq_of_judges :
    steps.filterMap Report.Step.failure? = entries.filterMap failureOf := by
  induction h with
  | nil => rfl
  | cons hhead _ ih =>
    rw [List.filterMap_cons, List.filterMap_cons, ih]
    cases hhead with
    | failed herror => simp [herror, failureOf, Report.Step.failure?]
    | compared herror _ _ => simp [herror, failureOf, Report.Step.failure?]

/-- The configs with verdicts are those of the answers that did not fail, in order. -/
theorem verdicts_eq_of_judges : (steps.filterMap Report.Step.verdicts?).map (·.1) =
    (entries.filter fun e => e.2.error.isNone).map fun e => e.1.display := by
  induction h with
  | nil => rfl
  | cons hhead _ ih =>
    rw [List.filterMap_cons]
    cases hhead with
    | failed herror => simp [ih, herror, Report.Step.verdicts?]
    | compared herror _ _ => simp [ih, herror, Report.Step.verdicts?]

/-- No judged answer is about a config without targets. -/
theorem untested_of_judges : steps.filterMap Report.Step.untested? = [] := by
  induction h with
  | nil => rfl
  | cons hhead _ ih =>
    rw [List.filterMap_cons, ih]
    cases hhead <;> rfl

end Steps

/-! ## A run -/

/-- Exactly one of three conditions holds. -/
def ExactlyOne (p q r : Prop) : Prop := p ∧ ¬ q ∧ ¬ r ∨ ¬ p ∧ q ∧ ¬ r ∨ ¬ p ∧ ¬ q ∧ r

namespace Course

/-- A run accounts for the configs and for the invocations of its course. -/
structure Accounts (c : Course) (run : Audit) : Prop where
  missingTests_perm : run.report.missingTests.Perm
    ((c.detection.targets.entries.filter fun e => e.2.isEmpty).map fun e => e.1.display)
  errors_perm : run.report.errors.Perm (c.exchanges.filterMap Exchange.failure?)
  mem_results_iff : ∀ text, text ∈ run.report.results.keys ↔
    ∃ x ∈ c.detection.exchanges, x.config.display = text ∧ ∃ scan, x.reply = .found scan
  fixed : ∀ x ∈ c.fixing.exchanges, x.config.display ∈ run.report.results.keys
  known : ∀ text, text ∈ run.report.missingTests ∨ text ∈ run.report.errors.map FailedConfig.config ∨
    text ∈ run.report.results.keys →
      ∃ config ts, (config, ts) ∈ c.detection.targets.entries ∧ config.display = text
  /-- Each exchange has its document, those of the first phase before those of the second, and those of
  a phase in the order of their configs. -/
  documents : ∃ first second : List Exchange,
    first.Perm c.detection.exchanges ∧ second.Perm c.fixing.exchanges ∧
    first.Pairwise (fun x y => Before x.config y.config) ∧
    second.Pairwise (fun x y => Before x.config y.config) ∧
    run.outputs = first.map (fun x => keptDocument .detection x.outcome) ++
      second.map fun x => keptDocument .autofix x.outcome

/-- A run accounts for each config once. -/
structure AccountsOnce (c : Course) (run : Audit) : Prop where
  once : ∀ config ts, (config, ts) ∈ c.detection.targets.entries →
    ExactlyOne (config.display ∈ run.report.missingTests)
      (config.display ∈ (c.detection.exchanges.filterMap Exchange.failure?).map FailedConfig.config)
      (config.display ∈ run.report.results.keys)
  untested : ∀ config ts, (config, ts) ∈ c.detection.targets.entries →
    (config.display ∈ run.report.missingTests ↔ ts = [])
  missingTests_nodup : run.report.missingTests.Nodup
  errors_nodup : (run.report.errors.map FailedConfig.config).Nodup

variable {w : World} {engine : Engine} {schedule : Schedule} {settings : AuditSettings} {c : Course}

theorem untested_steps (hc : w.course engine schedule settings = .ok c)
    (fixes : List GoldenVerdict) : (c.steps fixes).filterMap Report.Step.untested? =
      (c.detection.targets.entries.filter fun e => e.2.isEmpty).map (·.1) := by
  have herrors : (errorSteps (Exchange.byConfig c.fixing.exchanges)).filterMap
      Report.Step.untested? = [] := by
    simp only [errorSteps, List.filterMap_eq_nil_iff, List.mem_filterMap]
    intro step hstep
    obtain ⟨e, -, hstep⟩ := hstep
    obtain ⟨message, -, rfl⟩ := Option.map_eq_some_iff.1 hstep
    rfl
  simp [steps, untestedSteps, World.ungoldenSteps, List.filterMap_append, List.filterMap_map,
    Function.comp_def, Report.Step.untested?, herrors, untested_of_judges (judges hc)]

/-- **The failures of a report** are those of the exchanges. -/
theorem failures_steps_perm (hc : w.course engine schedule settings = .ok c)
    (fixes : List GoldenVerdict) : ((c.steps fixes).filterMap Report.Step.failure?).Perm
      (c.exchanges.filterMap Exchange.failure?) := by
  have hsteps : (c.steps fixes).filterMap Report.Step.failure? =
      (Exchange.inOrder c.detection.exchanges).filterMap Exchange.failure? ++
        (Exchange.inOrder c.fixing.exchanges).filterMap Exchange.failure? := by
    rw [← Exchange.failures_byConfig (distinctConfigs_detection hc),
      ← Exchange.failures_byConfig (distinctConfigs_fixing hc),
      ← failures_eq_of_judges (judges hc), ← failures_errorSteps]
    simp [steps, untestedSteps, World.ungoldenSteps, List.filterMap_append, List.filterMap_map,
      Function.comp_def, Report.Step.failure?]
  rw [hsteps, exchanges, List.filterMap_append]
  exact ((Exchange.inOrder_perm _).filterMap _).append ((Exchange.inOrder_perm _).filterMap _)

/-- **The configs with verdicts** are those that were answered with findings. -/
theorem mem_keys_results_iff (hc : w.course engine schedule settings = .ok c) (place : Path → Path)
    (fixes : List GoldenVerdict) {text : Text} :
    text ∈ (Report.ofSteps place (c.steps fixes)).results.keys ↔
      ∃ x ∈ c.detection.exchanges, x.config.display = text ∧ ∃ scan, x.reply = .found scan := by
  have hkeys : text ∈ (Report.ofSteps place (c.steps fixes)).results.keys ↔
      text ∈ ((Exchange.byConfig c.detection.exchanges).entries.filter fun e => e.2.error.isNone).map
        fun e => e.1.display := by
    rw [Report.results_ofSteps, verdicts_steps, OrderedMap.mem_keys_ofList,
      ← verdicts_eq_of_judges (judges hc), List.mem_map]
  rw [hkeys]
  simp only [List.mem_map, List.mem_filter, Option.isNone_iff_eq_none,
    Exchange.mem_entries_byConfig_iff (distinctConfigs_detection hc)]
  constructor
  · intro hentry
    obtain ⟨e, ⟨⟨x, hx, rfl⟩, hnone⟩, rfl⟩ := hentry
    exact ⟨x, hx, rfl, Exchange.error_outcome_eq_none_iff.1 hnone⟩
  · intro hfound
    obtain ⟨x, hx, rfl, hscan⟩ := hfound
    exact ⟨_, ⟨⟨x, hx, rfl⟩, Exchange.error_outcome_eq_none_iff.2 hscan⟩, rfl⟩

/-- Only configs that were answered with findings reach the second phase. -/
theorem found_of_fixing (hc : w.course engine schedule settings = .ok c) {x : Exchange}
    (hx : x ∈ c.fixing.exchanges) :
    ∃ y ∈ c.detection.exchanges, y.config = x.config ∧ ∃ scan, y.reply = .found scan := by
  obtain ⟨roots, -, -, -, -, hf⟩ := World.course_eq_ok hc
  have hperm := c.detection.world.fixing_invocations_perm engine schedule settings.options c.cases
  rw [cases, ← hf] at hperm
  have htask := hperm.mem_iff.1 (List.mem_map_of_mem hx)
  rw [hf] at htask
  obtain ⟨-, ⟨case, hcase, hconfig⟩, -⟩ := asked_to_fix hc htask
  obtain ⟨y, hy, hyconfig, scan, hscan, -⟩ := ((mem_cases_iff hc).1 hcase).passed
  exact ⟨y, hy, hyconfig.trans hconfig, scan, hscan⟩

/-- Every config that something was asked about is one of the configs. -/
theorem exists_entry_of_exchange (hc : w.course engine schedule settings = .ok c) {x : Exchange}
    (hx : x ∈ c.exchanges) : ∃ ts, (x.config, ts) ∈ c.detection.targets.entries := by
  rcases List.mem_append.1 hx with hx | hx
  · exact ⟨_, (mem_targets hc hx).1⟩
  · obtain ⟨y, hy, hconfig, -⟩ := found_of_fixing hc hx
    exact ⟨_, hconfig ▸ (mem_targets hc hy).1⟩

/-- **The configs without targets** are reported. -/
theorem missingTests_perm (hc : w.course engine schedule settings = .ok c) (place : Path → Path)
    (fixes : List GoldenVerdict) : (Report.ofSteps place (c.steps fixes)).missingTests.Perm
      ((c.detection.targets.entries.filter fun e => e.2.isEmpty).map fun e => e.1.display) := by
  have hperm := Report.missingTests_ofSteps_perm place (c.steps fixes)
  rwa [untested_steps hc, List.map_map] at hperm

theorem mem_missingTests_iff (hc : w.course engine schedule settings = .ok c) (place : Path → Path)
    (fixes : List GoldenVerdict) {text : Text} :
    text ∈ (Report.ofSteps place (c.steps fixes)).missingTests ↔
      ∃ config, (config, []) ∈ c.detection.targets.entries ∧ config.display = text := by
  rw [(missingTests_perm hc place fixes).mem_iff]
  simp only [List.mem_map, List.mem_filter, List.isEmpty_iff]
  constructor
  · intro hmissing
    obtain ⟨⟨config, ts⟩, ⟨he, rfl⟩, htext⟩ := hmissing
    exact ⟨config, he, htext⟩
  · intro hmissing
    obtain ⟨config, he, htext⟩ := hmissing
    exact ⟨(config, []), ⟨he, rfl⟩, htext⟩

/-! ## Configs with texts of their own -/

section TextsApart

variable (hc : w.course engine schedule settings = .ok c)
  (htexts : Path.TextsApart c.detection.targets.keys)
include htexts

theorem eq_of_display_eq {config config' : Path} {ts ts' : List Path}
    (he : (config, ts) ∈ c.detection.targets.entries) (he' : (config', ts') ∈ c.detection.targets.entries)
    (htext : config.display = config'.display) : config = config' := by
  have hkey : config ∈ c.detection.targets.keys := List.mem_map_of_mem he
  have hkey' : config' ∈ c.detection.targets.keys := List.mem_map_of_mem he'
  exact OrderedMap.eq_of_mem_keys hkey hkey' (Path.compare_eq_iff.2 (htexts _ hkey _ hkey' htext))

include hc

theorem config_eq_of_display_eq {x y : Exchange} (hx : x ∈ c.exchanges) (hy : y ∈ c.exchanges)
    (htext : x.config.display = y.config.display) : x.config = y.config := by
  obtain ⟨ts, he⟩ := exists_entry_of_exchange hc hx
  obtain ⟨ts', he'⟩ := exists_entry_of_exchange hc hy
  exact eq_of_display_eq htexts he he' htext

/-- No config fails in both phases, and none twice in one. -/
theorem nodup_failures :
    ((c.exchanges.filterMap Exchange.failure?).map FailedConfig.config).Nodup := by
  have hfirst : ∀ {x}, x ∈ c.detection.exchanges → x ∈ c.exchanges := fun hx =>
    List.mem_append_left _ hx
  have hsecond : ∀ {x}, x ∈ c.fixing.exchanges → x ∈ c.exchanges := fun hx =>
    List.mem_append_right _ hx
  rw [exchanges, List.filterMap_append, List.map_append]
  refine (Exchange.nodup_failures (distinctConfigs_detection hc) fun x hx y hy =>
      config_eq_of_display_eq hc htexts (hfirst hx) (hfirst hy)).append
    (Exchange.nodup_failures (distinctConfigs_fixing hc) fun x hx y hy =>
      config_eq_of_display_eq hc htexts (hsecond hx) (hsecond hy)) ?_
  intro text hdetection hfixing
  rw [Exchange.map_config_failures] at hfixing
  obtain ⟨x, hx, rfl⟩ := List.mem_map.1 hfixing
  obtain ⟨y, hy, hconfig, hfound⟩ := found_of_fixing hc (List.mem_filter.1 hx).1
  rw [← hconfig] at hdetection
  exact (Exchange.mem_failures_iff (distinctConfigs_detection hc) hy fun z hz =>
    config_eq_of_display_eq hc htexts (hfirst hz) (hfirst hy)).1 hdetection hfound

theorem nodup_missingTests (place : Path → Path) (fixes : List GoldenVerdict) :
    (Report.ofSteps place (c.steps fixes)).missingTests.Nodup := by
  rw [(missingTests_perm hc place fixes).nodup_iff]
  have hentries := c.detection.targets.distinctKeys_entries
  refine List.pairwise_map.2 ((List.Pairwise.filter _ hentries).imp_of_mem ?_)
  intro a b ha hb hab htext
  have hconfig : a.1 = b.1 :=
    eq_of_display_eq htexts (List.mem_filter.1 ha).1 (List.mem_filter.1 hb).1 htext
  rw [hconfig] at hab
  exact hab Std.ReflCmp.compare_self

theorem mem_missingTests_of_entry (place : Path → Path) (fixes : List GoldenVerdict) {config : Path}
    {ts : List Path} (he : (config, ts) ∈ c.detection.targets.entries) :
    config.display ∈ (Report.ofSteps place (c.steps fixes)).missingTests ↔ ts = [] := by
  rw [mem_missingTests_iff hc]
  constructor
  · intro hmissing
    obtain ⟨config', he', htext⟩ := hmissing
    obtain rfl := eq_of_display_eq htexts he he' htext.symm
    exact (Prod.mk.inj (OrderedMap.eq_of_mem he he' Std.ReflCmp.compare_self)).2
  · intro hempty
    exact ⟨config, hempty ▸ he, rfl⟩

/-- Nothing is asked about a config without targets. -/
theorem display_ne_of_untested {config : Path} (he : (config, []) ∈ c.detection.targets.entries) :
    ∀ x ∈ c.detection.exchanges, x.config.display ≠ config.display := by
  intro x hx htext
  obtain ⟨hentry, hne⟩ := mem_targets hc hx
  have hconfig : x.config = config := eq_of_display_eq htexts hentry he htext
  exact hne (targets_eq hc hx (hconfig ▸ he))

/-- **The place of a config** in the report of a run. -/
theorem exactlyOne_of_entry (place : Path → Path) (fixes : List GoldenVerdict) {config : Path}
    {ts : List Path} (he : (config, ts) ∈ c.detection.targets.entries) :
    ExactlyOne (config.display ∈ (Report.ofSteps place (c.steps fixes)).missingTests)
      (config.display ∈ (c.detection.exchanges.filterMap Exchange.failure?).map FailedConfig.config)
      (config.display ∈ (Report.ofSteps place (c.steps fixes)).results.keys) := by
  have hdistinct := distinctConfigs_detection hc
  rw [mem_missingTests_of_entry hc htexts place fixes he, mem_keys_results_iff hc]
  by_cases hempty : ts = []
  · have hunasked := display_ne_of_untested hc htexts (hempty ▸ he)
    refine .inl ⟨hempty, ?_, ?_⟩
    · intro hfailed
      rw [Exchange.map_config_failures] at hfailed
      obtain ⟨x, hx, htext⟩ := List.mem_map.1 hfailed
      exact hunasked x (List.mem_filter.1 hx).1 htext
    · intro hfound
      obtain ⟨x, hx, htext, -⟩ := hfound
      exact hunasked x hx htext
  · -- The config has one exchange, and its reply decides.
    obtain ⟨x, hx, rfl, -⟩ := exists_exchange hc he hempty
    have hown : ∀ y ∈ c.detection.exchanges, y.config.display = x.config.display → y.config = x.config :=
      fun y hy => eq_of_display_eq htexts (mem_targets hc hy).1 he
    have hverdicts : (∃ y ∈ c.detection.exchanges, y.config.display = x.config.display ∧
        ∃ scan, y.reply = .found scan) ↔ ∃ scan, x.reply = .found scan := by
      constructor
      · intro hfound
        obtain ⟨y, hy, htext, hscan⟩ := hfound
        obtain rfl := Exchange.eq_of_config_eq hdistinct hy hx (hown y hy htext)
        exact hscan
      · intro hscan
        exact ⟨x, hx, rfl, hscan⟩
    rw [Exchange.mem_failures_iff hdistinct hx hown, hverdicts]
    by_cases hscan : ∃ scan, x.reply = .found scan
    · exact .inr (.inr ⟨hempty, fun hfailed => hfailed hscan, hscan⟩)
    · exact .inr (.inl ⟨hempty, hscan, hscan⟩)

end TextsApart

/-- **A run with this course accounts for it**, and once for each config unless two of them share a text. -/
theorem accounts (hc : w.course engine schedule settings = .ok c) {place : Path → Path} {run : Audit}
    (hreport : run.report = Report.ofSteps place (c.steps run.fixes))
    (houtputs : run.outputs = c.outputs) :
    c.Accounts run ∧ (Path.TextsApart c.detection.targets.keys → c.AccountsOnce run) := by
  have herrors : run.report.errors.Perm (c.exchanges.filterMap Exchange.failure?) := by
    rw [hreport]
    exact (Report.errors_ofSteps_perm _ _).trans (failures_steps_perm hc _)
  have hdetection := distinctConfigs_detection hc
  have hfixing := distinctConfigs_fixing hc
  refine ⟨⟨?_, herrors, ?_, ?_, ?_, ?_⟩, fun htexts => ⟨?_, ?_, ?_, ?_⟩⟩
  · rw [hreport]
    exact missingTests_perm hc _ _
  · rw [hreport]
    exact fun text => mem_keys_results_iff hc _ _
  · intro x hx
    obtain ⟨y, hy, hconfig, hscan⟩ := found_of_fixing hc hx
    rw [hreport, mem_keys_results_iff hc]
    exact ⟨y, hy, congrArg Path.display hconfig, hscan⟩
  · intro text htext
    rcases htext with hmissing | hfailed | hverdicts
    · rw [hreport, mem_missingTests_iff hc] at hmissing
      obtain ⟨config, he, htext⟩ := hmissing
      exact ⟨config, [], he, htext⟩
    · rw [(herrors.map _).mem_iff, Exchange.map_config_failures, List.mem_map] at hfailed
      obtain ⟨x, hx, rfl⟩ := hfailed
      obtain ⟨ts, he⟩ := exists_entry_of_exchange hc (List.mem_filter.1 hx).1
      exact ⟨x.config, ts, he, rfl⟩
    · rw [hreport, mem_keys_results_iff hc] at hverdicts
      obtain ⟨x, hx, rfl, -⟩ := hverdicts
      exact ⟨x.config, _, (mem_targets hc hx).1, rfl⟩
  · refine ⟨_, _, Exchange.inOrder_perm _, Exchange.inOrder_perm _,
      Exchange.inOrder_ascending hdetection, Exchange.inOrder_ascending hfixing, ?_⟩
    rw [houtputs, outputs, OrderedMap.values, OrderedMap.values, Exchange.entries_byConfig hdetection,
      Exchange.entries_byConfig hfixing]
    simp only [List.map_map, Function.comp_def]
  · rw [hreport]
    exact fun config ts => exactlyOne_of_entry hc htexts _ _
  · rw [hreport]
    exact fun config ts => mem_missingTests_of_entry hc htexts _ _
  · rw [hreport]
    exact nodup_missingTests hc htexts _ _
  · exact (herrors.map _).nodup_iff.2 (nodup_failures hc htexts)

end Course

/-- **No config is lost or counted twice in a run** that ends with a report, whatever the order of the
invocations and whatever becomes of any of them. The engine was asked in the first phase about each config
with targets once, with all of its targets. The errors are those of the failed invocations of both phases, with
their messages and documents. Each invocation has its document, first those of the first phase and then those
of the second, either in the order of the configs. Unless two configs share a text, each config is either reported
to be without targets, which is so exactly for those without, or has an error of the first phase, or has verdicts;
no config has two errors, and one that failed in the second phase has verdicts. -/
theorem accounting_of_audit {s s' : Session} {engine : Engine} {schedule : Schedule}
    {settings : AuditSettings} {run : Audit}
    (h : s.audit engine schedule settings = (.ok run, s')) :
    ∃ c, s.world.course engine schedule settings = .ok c ∧
      s'.asked = s.asked ++ c.exchanges.map Exchange.invocation ∧
      (c.detection.exchanges.map Exchange.invocation).Perm
        (detectionTasks c.detection.targets settings.options) ∧
      c.Accounts run ∧ (Path.TextsApart c.detection.targets.keys → c.AccountsOnce run) := by
  obtain ⟨c, hc, hasked, hreport, houtputs⟩ := Session.audit_eq_ok h
  refine ⟨c, hc, hasked, ?_, Course.accounts hc hreport houtputs⟩
  obtain ⟨roots, -, hd, -, -, -⟩ := World.course_eq_ok hc
  rw [hd]
  exact s.world.detection_invocations_perm engine schedule settings roots

/-- Three configs: one is answered with the expected finding and then crashes when it is to fix, one has no
targets, and one fails at once. Each has its place, and both failures are reported. -/
theorem accounting_of_mixed_run :
    let declaring := Utf8.encode "rules: [{fix: z}]".toList
    let world : World :=
      { tree := Tree.ofTexts
          [(["r".toList], .directory), (["tmp".toList], .directory),
            (["a.yaml".toList, "r".toList], .file declaring false),
            (["b.yaml".toList, "r".toList], .file declaring false),
            (["c.yaml".toList, "r".toList], .file declaring false),
            (["a.py".toList, "r".toList], .file (Utf8.encode "# ruleid: x\ny".toList) false),
            (["c.py".toList, "r".toList], .file [] false),
            (["a.fixed.py".toList, "r".toList], .file (Utf8.encode ['z']) false)]
        home := []
        scratch := Place.ofTexts ["tmp".toList] }
    let engine : Engine := fun i w =>
      if i.options.autofix then (.crashed (some "out of memory".toList), w)
      else if i.config.display = "/r/c.yaml".toList then (.failed (.malformed "no rules".toList), w)
      else (.found ⟨[⟨"x".toList, ⟨"/r/a.py".toList⟩, 2⟩], .null⟩, w)
    let settings : AuditSettings :=
      ⟨⟨⟨"/r".toList⟩, ⟨"/r".toList⟩⟩, true, false, Optimizations.none⟩
    ∃ c run s', world.course engine .inTurn settings = .ok c ∧
      (Session.start world).audit engine .inTurn settings = (.ok run, s') ∧ c.Accounts run ∧
      c.AccountsOnce run ∧
      (s'.asked.map fun i => (i.config, i.options.autofix)) =
        [(⟨"/r/a.yaml".toList⟩, false), (⟨"/r/c.yaml".toList⟩, false),
          (⟨"/r/a.yaml".toList⟩, true)] ∧
      run.report.missingTests = ["/r/b.yaml".toList] ∧
      run.report.results.keys = ["/r/a.yaml".toList] ∧
      (run.report.errors.map fun e => (e.config, e.error)) =
        [("/r/a.yaml".toList, "out of memory".toList),
          ("/r/c.yaml".toList, "engine result is malformed: no rules".toList)] := by
  intro declaring world engine settings
  have hended : (((Session.start world).audit engine .inTurn settings).1.toOption.map fun run =>
      (run.report.missingTests, run.report.results.keys,
        run.report.errors.map fun e => (e.config, e.error))) =
      some (["/r/b.yaml".toList], ["/r/a.yaml".toList],
        [("/r/a.yaml".toList, "out of memory".toList),
          ("/r/c.yaml".toList, "engine result is malformed: no rules".toList)]) := by
    decide +kernel
  have hasked : (((Session.start world).audit engine .inTurn settings).2.asked.map fun i =>
      (i.config, i.options.autofix)) =
      [(⟨"/r/a.yaml".toList⟩, false), (⟨"/r/c.yaml".toList⟩, false),
        (⟨"/r/a.yaml".toList⟩, true)] := by
    decide +kernel
  have htexts : (world.course engine .inTurn settings).toOption.map (fun c =>
      decide (Path.TextsApart c.detection.targets.keys)) = some true := by
    decide +kernel
  obtain ⟨run, s', hrun, hreported⟩ := Session.exists_run hended
  obtain ⟨hmissing, hreported⟩ := Prod.mk.inj hreported
  obtain ⟨hkeys, herrors⟩ := Prod.mk.inj hreported
  obtain ⟨c, hc, -, -, haccounts, honce⟩ := accounting_of_audit hrun
  obtain ⟨c', hc', htexts⟩ := map_toOption_eq_some_iff.1 htexts
  obtain rfl := Except.ok.inj (hc'.symm.trans hc)
  rw [hrun] at hasked
  exact ⟨c', run, s', hc, hrun, haccounts, honce (of_decide_eq_true htexts), hasked, hmissing, hkeys, herrors⟩

/-- **Of two configs with one text** the first is answered with findings and the second fails. Under their text
there are both verdicts and an error. -/
theorem accounting_of_configs_with_one_text :
    let below (names : List Text) (b : UInt8) (h : ProperName [b]) : Place :=
      Place.ofTexts names ++ ⟨[b], h⟩ :: Place.ofTexts ["r".toList]
    let first (names : List Text) : Place := below names 0xFE (by decide)
    let second (names : List Text) : Place := below names 0xFF (by decide)
    let world : World :=
      { tree := OrderedMap.ofList
          [(Place.ofTexts ["r".toList], .directory), (first [], .directory),
            (first ["a.yaml".toList], .file [] false), (first ["a.py".toList], .file [] false),
            (second [], .directory), (second ["a.yaml".toList], .file [] false),
            (second ["a.py".toList], .file [] false)]
        home := []
        scratch := Place.ofTexts ["tmp".toList] }
    let engine : Engine := fun i w =>
      if i.config = (first ["a.yaml".toList]).path then (.found .empty, w)
      else (.failed (.malformed "no rules".toList), w)
    let settings : AuditSettings :=
      ⟨⟨⟨"/r".toList⟩, ⟨"/r".toList⟩⟩, true, false, Optimizations.none⟩
    ∃ run s' c, (Session.start world).audit engine .inTurn settings = (.ok run, s') ∧
      world.course engine .inTurn settings = .ok c ∧ ¬ c.AccountsOnce run := by
  intro below first second world engine settings
  have hkept : (((Session.start world).audit engine .inTurn settings).1.toOption.map fun run =>
      run.report.results.keys) = some [(first ["a.yaml".toList]).path.display] := by
    decide +kernel
  have hfailed : (world.course engine .inTurn settings).toOption.map (fun c =>
      (c.detection.targets.keys,
        (c.detection.exchanges.filterMap Exchange.failure?).map FailedConfig.config)) =
      some ([(first ["a.yaml".toList]).path, (second ["a.yaml".toList]).path],
        [(first ["a.yaml".toList]).path.display]) := by
    decide +kernel
  obtain ⟨run, s', hrun, hkeys⟩ := Session.exists_run hkept
  obtain ⟨c, hc, hfailed⟩ := map_toOption_eq_some_iff.1 hfailed
  obtain ⟨hconfigs, hfailed⟩ := Prod.mk.inj hfailed
  refine ⟨run, s', c, hrun, hc, fun honce => ?_⟩
  obtain ⟨⟨config, ts⟩, he, hconfig⟩ : ∃ e ∈ c.detection.targets.entries,
      e.1 = (first ["a.yaml".toList]).path := by
    refine List.mem_map.1 ?_
    rw [← OrderedMap.keys, hconfigs]
    exact List.mem_cons_self
  have hone := honce.once config ts he
  rw [hfailed, hkeys, show config.display = _ from congrArg Path.display hconfig] at hone
  simp [ExactlyOne] at hone

end RuleAudit
