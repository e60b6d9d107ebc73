import RuleAudit.Proofs.Run.Course

/-!
# The exit code of a run

The exit code of a run can be told from its course: from what the engine answered, and from the texts of
the targets after the first phase. The order of the invocations has no part in it. The tables by which findings
and annotations are joined are kept by the texts of paths, so they lose a config or a file whose text another one
has, but nothing else.
-/

namespace RuleAudit

theorem Exchange.error_outcome_eq_none_iff {x : Exchange} :
    x.outcome.error = none ↔ ∃ scan, x.reply = .found scan := by
  obtain ⟨invocation, reply⟩ := x
  cases reply <;> simp [outcome, Outcome.ofReply]

theorem Exchange.scan_outcome {x : Exchange} {scan : Scan} (h : x.reply = .found scan) :
    x.outcome.scan = scan := by
  rw [outcome, h, Outcome.ofReply]

theorem errorSteps_failures {outcomes : OrderedMap Path Outcome} :
    (∀ step ∈ errorSteps outcomes, step.failure? = none) ↔
      ∀ e ∈ outcomes.entries, e.2.error = none := by
  simp only [errorSteps, List.mem_filterMap, forall_exists_index, and_imp]
  rw [forall_comm]
  refine forall_congr' fun e => ?_
  rw [forall_comm]
  refine forall_congr' fun _ => ?_
  cases e.2.error <;> simp [Report.Step.failure?]

/-- The paths that the comparisons of an answer are about: those of the targets and of the findings. -/
def Exchange.comparedPaths (x : Exchange) : List Path :=
  match x.reply with
  | .found scan => x.invocation.targets ++ scan.findings.map Finding.path
  | _ => []

theorem Exchange.comparedPaths_found {x : Exchange} {scan : Scan} (h : x.reply = .found scan) :
    x.comparedPaths = x.invocation.targets ++ scan.findings.map Finding.path := by
  rw [comparedPaths, h]

/-- No two configs that the engine is asked about share a text, nor do two files in the comparisons of one. -/
structure Course.TextsApart (c : Course) : Prop where
  configs : Path.TextsApart (c.detection.exchanges.map Exchange.config)
  files : ∀ x ∈ c.detection.exchanges,
    Path.TextsApart (x.comparedPaths.map c.detection.world.normalize)

instance (c : Course) : Decidable c.TextsApart :=
  decidable_of_iff (_ ∧ _) ⟨fun h => ⟨h.1, h.2⟩, fun h => ⟨h.configs, h.files⟩⟩

namespace Course

variable {w : World} {engine : Engine} {schedule : Schedule} {settings : AuditSettings} {c : Course}

/-- **The errors of a run**: there is none if and only if every invocation was answered with
findings. -/
theorem failures_iff (hc : w.course engine schedule settings = .ok c)
    (fixes : List GoldenVerdict) : (∀ step ∈ c.steps fixes, step.failure? = none) ↔
      ∀ x ∈ c.exchanges, ∃ scan, x.reply = .found scan := by
  have huntested : ∀ step ∈ untestedSteps c.detection.targets, step.failure? = none :=
    List.forall_mem_map.2 fun _ _ => rfl
  have hungolden : ∀ step ∈ c.detection.world.ungoldenSteps c.golden, step.failure? = none :=
    List.forall_mem_map.2 fun _ _ => rfl
  have hfixes : ∀ step ∈ fixes.map Report.Step.fix, step.failure? = none :=
    List.forall_mem_map.2 fun _ _ => rfl
  have hfound : ∀ {xs : List Exchange}, DistinctConfigs (xs.map Exchange.invocation) →
      ((∀ e ∈ (Exchange.byConfig xs).entries, e.2.error = none) ↔
        ∀ x ∈ xs, ∃ scan, x.reply = .found scan) := by
    intro xs hxs
    simp only [Exchange.mem_entries_byConfig_iff hxs, forall_exists_index, and_imp,
      forall_apply_eq_imp_iff₂, Exchange.error_outcome_eq_none_iff]
  rw [steps, exchanges, List.forall_mem_append, and_iff_left hfixes, List.forall_mem_append,
    List.forall_mem_append, and_iff_left hungolden, List.forall_mem_append,
    and_iff_right huntested, failures_of_judges (judges hc), errorSteps_failures,
    hfound (distinctConfigs_detection hc), hfound (distinctConfigs_fixing hc),
    List.forall_mem_append]

/-- Verdicts come from judged answers only. -/
theorem verdicts_steps (c : Course) (fixes : List GoldenVerdict) :
    (c.steps fixes).filterMap Report.Step.verdicts? =
      c.judged.steps.filterMap Report.Step.verdicts? := by
  have herrors : (errorSteps (Exchange.byConfig c.fixing.exchanges)).filterMap
      Report.Step.verdicts? = [] := by
    simp only [errorSteps, List.filterMap_eq_nil_iff, List.mem_filterMap]
    rintro step ⟨e, -, hstep⟩
    obtain ⟨message, -, rfl⟩ := Option.map_eq_some_iff.1 hstep
    rfl
  simp [steps, untestedSteps, World.ungoldenSteps, List.filterMap_append, List.filterMap_map,
    Function.comp_def, Report.Step.verdicts?, herrors]

/-- What the entries of the first phase say about the lines, said of its exchanges. -/
theorem disagreeing_iff (hc : w.course engine schedule settings = .ok c) :
    (∃ e ∈ (Exchange.byConfig c.detection.exchanges).entries, e.2.error = none ∧
        ¬ c.detection.world.LinesAgree ((c.detection.targets.get? e.1).getD []) e.2.scan.findings) ↔
      ∃ x ∈ c.detection.exchanges, ∃ scan, x.reply = .found scan ∧
        ¬ c.detection.world.LinesAgree x.invocation.targets scan.findings := by
  simp only [Exchange.mem_entries_byConfig_iff (distinctConfigs_detection hc),
    exists_exists_and_eq_and, Exchange.error_outcome_eq_none_iff]
  refine exists_congr fun x => and_congr_right fun hx => ?_
  have hget := OrderedMap.get?_of_mem (mem_targets hc hx).1
  rw [hget, Option.getD_some]
  constructor
  · rintro ⟨⟨scan, hscan⟩, hfail⟩
    rw [Exchange.scan_outcome hscan] at hfail
    exact ⟨scan, hscan, hfail⟩
  · rintro ⟨scan, hscan, hfail⟩
    rw [← Exchange.scan_outcome hscan] at hfail
    exact ⟨⟨scan, hscan⟩, hfail⟩

/-- The files that the entries of the first phase are compared in have texts of their own. -/
theorem textsApart_entries (hc : w.course engine schedule settings = .ok c) (hapart : c.TextsApart) :
    ∀ e ∈ (Exchange.byConfig c.detection.exchanges).entries, e.2.error = none → Path.TextsApart
      (((c.detection.targets.get? e.1).getD [] ++ e.2.scan.findings.map Finding.path).map
        c.detection.world.normalize) := by
  intro e he hnone
  obtain ⟨x, hx, rfl⟩ := (Exchange.mem_entries_byConfig_iff (distinctConfigs_detection hc)).1 he
  obtain ⟨scan, hscan⟩ := Exchange.error_outcome_eq_none_iff.1 hnone
  have hget := OrderedMap.get?_of_mem (mem_targets hc hx).1
  rw [hget, Option.getD_some, Exchange.scan_outcome hscan, ← Exchange.comparedPaths_found hscan]
  exact hapart.files x hx

/-- **The failing verdicts of a run**: there are some if and only if the lines of some config that was
answered with findings do not agree, unless files share a text. -/
theorem failing_iff (hc : w.course engine schedule settings = .ok c) (hapart : c.TextsApart)
    (fixes : List GoldenVerdict) :
    (∃ v ∈ (c.steps fixes).filterMap Report.Step.verdicts?, ¬ v.2.AllPass) ↔
      ∃ x ∈ c.detection.exchanges, ∃ scan, x.reply = .found scan ∧
        ¬ c.detection.world.LinesAgree x.invocation.targets scan.findings := by
  rw [verdicts_steps, failing_of_judges_iff (judges hc) (textsApart_entries hc hapart),
    disagreeing_iff hc]

theorem isEmpty_errors_iff (hc : w.course engine schedule settings = .ok c)
    (place : Path → Path) (fixes : List GoldenVerdict) :
    (Report.ofSteps place (c.steps fixes)).errors.isEmpty = true ↔
      ∀ x ∈ c.exchanges, ∃ scan, x.reply = .found scan := by
  rw [Report.isEmpty_errors_ofSteps, failures_iff hc]

/-- A test fails only if the lines of some config do not agree. -/
theorem disagreeing_of_anyFailure (hc : w.course engine schedule settings = .ok c) {place : Path → Path}
    {fixes : List GoldenVerdict} (h : (Report.ofSteps place (c.steps fixes)).anyFailure = true) :
    ∃ x ∈ c.detection.exchanges, ∃ scan, x.reply = .found scan ∧
      ¬ c.detection.world.LinesAgree x.invocation.targets scan.findings := by
  obtain ⟨v, hv, hfail⟩ := Report.exists_failing_of_anyFailure h
  rw [verdicts_steps] at hv
  exact (disagreeing_iff hc).1 (failing_of_judges (judges hc) hv hfail)

theorem anyFailure_iff (hc : w.course engine schedule settings = .ok c) (hapart : c.TextsApart)
    (place : Path → Path) (fixes : List GoldenVerdict) :
    (Report.ofSteps place (c.steps fixes)).anyFailure = true ↔
      ∃ x ∈ c.detection.exchanges, ∃ scan, x.reply = .found scan ∧
        ¬ c.detection.world.LinesAgree x.invocation.targets scan.findings := by
  have hconfigs : Path.TextsApart
      ((Exchange.byConfig c.detection.exchanges).entries.map Prod.fst) := by
    refine hapart.configs.mono fun config hconfig => ?_
    obtain ⟨e, he, rfl⟩ := List.mem_map.1 hconfig
    obtain ⟨x, hx, rfl⟩ := (Exchange.mem_entries_byConfig_iff (distinctConfigs_detection hc)).1 he
    exact List.mem_map_of_mem hx
  rw [← failing_iff hc hapart fixes]
  refine Report.anyFailure_ofSteps_iff ?_
  rw [verdicts_steps]
  exact distinctKeys_verdicts (judges hc) (OrderedMap.distinctKeys_entries _) hconfigs

/-- Fix tests have no part in whether a test failed. -/
theorem anyFailure_steps_congr (c : Course) (place : Path → Path) (fixes fixes' : List GoldenVerdict) :
    (Report.ofSteps place (c.steps fixes)).anyFailure =
      (Report.ofSteps place (c.steps fixes')).anyFailure := by
  have hresults : (Report.ofSteps place (c.steps fixes)).results =
      (Report.ofSteps place (c.steps fixes')).results := by
    rw [Report.results_ofSteps, Report.results_ofSteps, verdicts_steps, verdicts_steps]
  rw [Bool.eq_iff_iff, Report.anyFailure_iff, Report.anyFailure_iff, hresults]

/-- Where every invocation was answered with findings, no verdict fails if and only if the lines of every
config with targets agree. -/
theorem not_failing_iff (hc : w.course engine schedule settings = .ok c)
    (hfound : ∀ x ∈ c.exchanges, ∃ scan, x.reply = .found scan) :
    (¬ ∃ x ∈ c.detection.exchanges, ∃ scan, x.reply = .found scan ∧
        ¬ c.detection.world.LinesAgree x.invocation.targets scan.findings) ↔
      ∀ config ts, (config, ts) ∈ c.detection.targets.entries → ts ≠ [] →
        ∃ x ∈ c.detection.exchanges, x.config = config ∧ x.invocation.targets = ts ∧
          ∃ scan, x.reply = .found scan ∧ c.detection.world.LinesAgree ts scan.findings := by
  constructor
  · intro hnone config ts he hne
    obtain ⟨x, hx, hconfig, rfl⟩ := exists_exchange hc he hne
    obtain ⟨scan, hscan⟩ := hfound x (List.mem_append_left _ hx)
    refine ⟨x, hx, hconfig, rfl, scan, hscan, ?_⟩
    by_contra hagree
    exact hnone ⟨x, hx, scan, hscan, hagree⟩
  · rintro hall ⟨x, hx, scan, hscan, hagree⟩
    obtain ⟨he, hne⟩ := mem_targets hc hx
    obtain ⟨y, hy, hconfig, htargets, scan', hscan', hagree'⟩ := hall _ _ he hne
    -- The config has one exchange only.
    obtain rfl := Exchange.eq_of_config_eq (distinctConfigs_detection hc) hy hx hconfig
    obtain rfl := Reply.found.inj (hscan.symm.trans hscan')
    exact hagree hagree'

end Course

/-- **The exit code of a run.** Whenever a run ends with a report, each config with targets was asked
about once, with all of its targets. Unless two of its configs or two of the files that one of them is compared in
share a text, the exit code under `strict` is 0 if and only if no invocation of
either phase ended in an error and, for every config with targets, every rule and every file, the lines
that the targets expect are those that the config's own findings report, apart from lines with work to be
done; and without `strict` it is 1 if and only if the lines of some config that was answered with findings do
not agree, and 0 otherwise. Where texts are shared, lines that disagree can be lost, but the code without `strict`
is still 0 or 1, and 0 if all lines agree. The differences of fix tests have no part in any of this. -/
theorem exitCode_of_audit {s s' : Session} {engine : Engine} {schedule : Schedule}
    {settings : AuditSettings} {run : Audit}
    (h : s.audit engine schedule settings = (.ok run, s')) :
    ∃ c, s.world.course engine schedule settings = .ok c ∧
      s'.asked = s.asked ++ c.exchanges.map Exchange.invocation ∧
      (c.detection.exchanges.map Exchange.invocation).Perm
        (detectionTasks c.detection.targets settings.options) ∧
      (c.TextsApart →
        ((run.report.exitCode true).toNat = 0 ↔
          (∀ x ∈ c.exchanges, ∃ scan, x.reply = .found scan) ∧
            ∀ config ts, (config, ts) ∈ c.detection.targets.entries → ts ≠ [] →
              ∃ x ∈ c.detection.exchanges, x.config = config ∧ x.invocation.targets = ts ∧
                ∃ scan, x.reply = .found scan ∧ c.detection.world.LinesAgree ts scan.findings) ∧
        ((run.report.exitCode false).toNat = 1 ↔
          ∃ x ∈ c.detection.exchanges, ∃ scan, x.reply = .found scan ∧
            ¬ c.detection.world.LinesAgree x.invocation.targets scan.findings) ∧
        ((run.report.exitCode false).toNat = 0 ↔
          ¬ ∃ x ∈ c.detection.exchanges, ∃ scan, x.reply = .found scan ∧
            ¬ c.detection.world.LinesAgree x.invocation.targets scan.findings)) ∧
      ((run.report.exitCode true).toNat = 0 → ∀ x ∈ c.exchanges, ∃ scan, x.reply = .found scan) ∧
      ((run.report.exitCode false).toNat = 1 →
        ∃ x ∈ c.detection.exchanges, ∃ scan, x.reply = .found scan ∧
          ¬ c.detection.world.LinesAgree x.invocation.targets scan.findings) ∧
      ((run.report.exitCode false).toNat = 0 ∨ (run.report.exitCode false).toNat = 1) ∧
      run.report = Report.ofSteps s'.world.normalize (c.steps run.fixes) ∧
      ∀ fixes strict, (Report.ofSteps s'.world.normalize (c.steps fixes)).exitCode strict =
        run.report.exitCode strict := by
  obtain ⟨c, hc, hasked, hreport⟩ := Session.audit_ok h
  have herrors := Course.isEmpty_errors_iff hc s'.world.normalize
  obtain ⟨roots, -, hd, -, -, -⟩ := World.course_eq_ok hc
  refine ⟨c, hc, hasked, ?_, fun hapart => ?_, ?_, ?_, ?_, hreport, ?_⟩
  · rw [hd]
    exact s.world.detection_invocations_perm engine schedule settings roots
  · have hfailure := Course.anyFailure_iff hc hapart s'.world.normalize
    refine ⟨?_, ?_, ?_⟩
    · rw [hreport, Report.toNat_exitCode_eq_zero_iff, ← Bool.not_eq_true, hfailure, herrors]
      simp only [forall_const]
      exact and_congr_right fun hfound => Course.not_failing_iff hc hfound
    · rw [hreport, Report.toNat_exitCode_eq_one_iff, hfailure]
      simp
    · rw [hreport, Report.toNat_exitCode_eq_zero_iff, ← Bool.not_eq_true, hfailure]
      simp
  · rw [hreport, Report.toNat_exitCode_eq_zero_iff, herrors]
    exact fun hzero => hzero.1 rfl
  · rw [hreport, Report.toNat_exitCode_eq_one_iff]
    exact fun hone => Course.disagreeing_of_anyFailure hc hone.2
  · rw [Report.toNat_exitCode_eq_zero_iff, Report.toNat_exitCode_eq_one_iff]
    cases run.report.anyFailure <;> simp
  · intro fixes strict
    rw [hreport]
    refine Report.exitCode_congr ?_ (c.anyFailure_steps_congr _ fixes run.fixes) strict
    rw [Bool.eq_iff_iff, herrors, herrors]

/-- A config and its target below one root: the engine reports the line that the target expects, so the
run ends with exit code 0 and every invocation in it was answered with findings. -/
theorem exitCode_of_passing_run :
    let world : World :=
      { tree := Tree.ofTexts
          [(["r".toList], .directory), (["a.yaml".toList, "r".toList], .file [] false),
            (["a.py".toList, "r".toList], .file (Utf8.encode "# ruleid: x\ny".toList) false)]
        home := []
        scratch := Place.ofTexts ["tmp".toList] }
    let engine : Engine := fun _ w => (.found ⟨[⟨"x".toList, ⟨"/r/a.py".toList⟩, 2⟩], .null⟩, w)
    let settings : AuditSettings :=
      ⟨⟨⟨"/r".toList⟩, ⟨"/r".toList⟩⟩, true, false, Optimizations.none⟩
    ∃ run s', (Session.start world).audit engine .inTurn settings = (.ok run, s') ∧
      (run.report.exitCode true).toNat = 0 ∧
      ∃ c, world.course engine .inTurn settings = .ok c ∧ c.TextsApart ∧
        ∀ x ∈ c.exchanges, ∃ scan, x.reply = .found scan := by
  intro world engine settings
  have hcode : (((Session.start world).audit engine .inTurn settings).1.toOption.map fun run =>
      (run.report.exitCode true).toNat) = some 0 := by
    decide +kernel
  have hapart : (world.course engine .inTurn settings).toOption.map (fun c => decide c.TextsApart) =
      some true := by
    decide +kernel
  obtain ⟨run, s', hrun, hzero⟩ := Session.exists_run hcode
  obtain ⟨c, hc, -, -, hiff, -⟩ := exitCode_of_audit hrun
  obtain ⟨c', hc', hapart⟩ := map_toOption_eq_some_iff.1 hapart
  obtain rfl := Except.ok.inj (hc'.symm.trans hc)
  have hapart := of_decide_eq_true hapart
  exact ⟨run, s', hrun, hzero, c', hc, hapart, ((hiff hapart).1.1 hzero).1⟩

/-- **Two configs with one text** share their verdicts, and those of the second one stay. The expected line of the
first one is not reported, and yet the run ends with exit code 0. -/
theorem exitCode_of_configs_with_one_text :
    let below (names : List Text) (b : UInt8) (h : ProperName [b]) : Place :=
      Place.ofTexts names ++ ⟨[b], h⟩ :: Place.ofTexts ["r".toList]
    let first (names : List Text) : Place := below names 0xFE (by decide)
    let second (names : List Text) : Place := below names 0xFF (by decide)
    let world : World :=
      { tree := OrderedMap.ofList
          [(Place.ofTexts ["r".toList], .directory), (first [], .directory),
            (first ["a.yaml".toList], .file [] false),
            (first ["a.py".toList], .file (Utf8.encode "# ruleid: x\ny".toList) false),
            (second [], .directory), (second ["a.yaml".toList], .file [] false),
            (second ["a.py".toList], .file [] false)]
        home := []
        scratch := Place.ofTexts ["tmp".toList] }
    let engine : Engine := fun _ w => (.found .empty, w)
    let settings : AuditSettings :=
      ⟨⟨⟨"/r".toList⟩, ⟨"/r".toList⟩⟩, true, false, Optimizations.none⟩
    ∃ run s' c, (Session.start world).audit engine .inTurn settings = (.ok run, s') ∧
      world.course engine .inTurn settings = .ok c ∧ (run.report.exitCode true).toNat = 0 ∧
      ∃ x ∈ c.detection.exchanges, ∃ scan, x.reply = .found scan ∧
        ¬ c.detection.world.LinesAgree x.invocation.targets scan.findings := by
  intro below first second world engine settings
  let annotated : Annotated := OrderedMap.ofList
    [((first ["a.py".toList]).path, Annotations.ofText "# ruleid: x\ny".toList)]
  have hcode : (((Session.start world).audit engine .inTurn settings).1.toOption.map fun run =>
      (run.report.exitCode true).toNat) = some 0 := by
    decide +kernel
  have hfirst : ((world.course engine .inTurn settings).toOption.bind fun c =>
      c.detection.exchanges.head?.map fun x =>
        (x.outcome.error, x.outcome.scan.findings,
          (c.detection.world.annotationsOf x.invocation.targets).toOption)) =
      some (none, [], some annotated) := by
    decide +kernel
  obtain ⟨run, s', hrun, hzero⟩ := Session.exists_run hcode
  obtain ⟨c, hcourse, hfirst⟩ := Option.bind_eq_some_iff.1 hfirst
  obtain ⟨x, hx, hsees⟩ := Option.map_eq_some_iff.1 hfirst
  obtain ⟨herror, hsees⟩ := Prod.mk.inj hsees
  obtain ⟨hfindings, hnotes⟩ := Prod.mk.inj hsees
  obtain ⟨scan, hscan⟩ := Exchange.error_outcome_eq_none_iff.1 herror
  rw [Exchange.scan_outcome hscan] at hfindings
  refine ⟨run, s', c, hrun, toOption_eq_some_iff.1 hcourse, hzero, x, List.mem_of_mem_head? hx, scan, hscan,
    ?_⟩
  rw [hfindings]
  have htable : compareFindings (.ofFindings c.detection.world.normalize []) annotated =
      .ok (compareLines .empty annotated) := rfl
  exact mt (World.allPass_of_linesAgree (toOption_eq_some_iff.1 hnotes) htable) (by decide +kernel)

end RuleAudit
