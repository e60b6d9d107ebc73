import RuleAudit.Proofs.Engine.Exchanges
import RuleAudit.Proofs.Pairing.Targets
import RuleAudit.Proofs.Results
import RuleAudit.Proofs.Run.Judging
import RuleAudit.Run.Audit

/-!
# The course of a run

A run that ends with a report has a course: the first phase with what the engine was asked and what it
answered, the judged answers, and the second phase on copies of the targets. The course is what
theorems about whole runs speak of; it depends on the files, on the engine and on the order of the
invocations, but on nothing that happened before the run.
-/

namespace RuleAudit

/-- The options of the invocations of the first phase. -/
def AuditSettings.options (settings : AuditSettings) : Options :=
  .detecting settings.strict settings.deep settings.optimizations

/-- The first phase of a run. -/
structure Detection where
  targets : OrderedMap Path (List Path)
  exchanges : List Exchange
  world : World

/-- The second phase of a run, up to the comparison with the golden files. -/
structure Fixing where
  copies : List CopiedCase
  exchanges : List Exchange
  world : World

/-- The course of a run that gets past its first phase. -/
structure Course where
  detection : Detection
  golden : OrderedMap Path (List (Path × Path))
  judged : Judged
  fixing : Fixing

/-- All exchanges of a run, those of the first phase before those of the second. -/
def Course.exchanges (c : Course) : List Exchange := c.detection.exchanges ++ c.fixing.exchanges

/-- The documents that a run with this course keeps: those of the first phase before those of the second,
by config. -/
def Course.outputs (c : Course) : List Json :=
  (Exchange.byConfig c.detection.exchanges).values.map (keptDocument .detection) ++
    (Exchange.byConfig c.fixing.exchanges).values.map (keptDocument .autofix)

/-- The steps of the report of a run with this course, for some verdicts on its fixes. -/
def Course.steps (c : Course) (fixes : List GoldenVerdict) : List Report.Step :=
  untestedSteps c.detection.targets ++ c.judged.steps ++
    c.detection.world.ungoldenSteps c.golden ++ errorSteps (Exchange.byConfig c.fixing.exchanges) ++
    fixes.map .fix

namespace World

/-- The first phase over some roots. -/
def detection (w : World) (engine : Engine) (schedule : Schedule) (settings : AuditSettings)
    (roots : Roots) : Detection :=
  let targets := w.ownedTargets roots.config (w.configsBelow roots.config) roots.target
  let found := engine.exchanges (schedule.arrange (detectionTasks targets settings.options)) w
  ⟨targets, found.1, found.2⟩

/-- The second phase for some cases. -/
def fixing (w : World) (engine : Engine) (schedule : Schedule) (options : Options)
    (cases : List GoldenCase) : Fixing :=
  let copied := w.copyCases cases
  let found := engine.exchanges (schedule.arrange (fixTasks copied.1 options)) copied.2.2
  ⟨copied.1, found.1, found.2⟩

/-- The course of a run, if it gets past the judging of the first phase. -/
def course (w : World) (engine : Engine) (schedule : Schedule) (settings : AuditSettings) :
    Except RunError Course := do
  let roots ← w.rootsFor settings.roots.target (some settings.roots.config)
  let d := w.detection engine schedule settings roots
  let judged ← d.world.judge d.targets (Exchange.byConfig d.exchanges)
  let golden := w.goldenPairs roots.target d.targets
  let cases := d.world.fixCases judged.passing golden
  return ⟨d, golden, judged, d.world.fixing engine schedule settings.options cases⟩

/-- What a course consists of. -/
theorem course_eq_ok {w : World} {engine : Engine} {schedule : Schedule} {settings : AuditSettings}
    {c : Course} (h : w.course engine schedule settings = .ok c) :
    ∃ roots, w.rootsFor settings.roots.target (some settings.roots.config) = .ok roots ∧
      c.detection = w.detection engine schedule settings roots ∧
      c.detection.world.judge c.detection.targets (Exchange.byConfig c.detection.exchanges) =
        .ok c.judged ∧
      c.golden = w.goldenPairs roots.target c.detection.targets ∧
      c.fixing = c.detection.world.fixing engine schedule settings.options
        (c.detection.world.fixCases c.judged.passing c.golden) := by
  simp only [course, bind_eq_ok_iff, pure_eq_ok_iff] at h
  obtain ⟨roots, hroots, judged, hjudge, rfl⟩ := h
  exact ⟨roots, hroots, rfl, hjudge, rfl, rfl⟩

end World

/-! ## Tasks -/

theorem distinctConfigs_map {ν : Type} {entries : List (Path × ν)} {f : Path × ν → Invocation}
    (h : OrderedMap.DistinctKeys entries) (hf : ∀ e, (f e).config = e.1) :
    DistinctConfigs (entries.map f) := by
  refine List.pairwise_map.2 (h.imp ?_)
  intro a b hab
  rwa [hf, hf]

/-- What the engine is asked in the first phase: about a config with targets, with all of them. -/
theorem mem_detectionTasks {targets : OrderedMap Path (List Path)} {options : Options} {i : Invocation}
    (h : i ∈ detectionTasks targets options) :
    (i.config, i.targets) ∈ targets.entries ∧ i.targets ≠ [] ∧ i.options = options := by
  obtain ⟨e, he, rfl⟩ := List.mem_map.1 h
  obtain ⟨he, hne⟩ := List.mem_filter.1 he
  exact ⟨he, by simpa using hne, rfl⟩

theorem distinctConfigs_detectionTasks (targets : OrderedMap Path (List Path)) (options : Options) :
    DistinctConfigs (detectionTasks targets options) :=
  distinctConfigs_map (targets.distinctKeys_entries.filter _) fun _ => rfl

theorem distinctConfigs_fixTasks (copies : List CopiedCase) (options : Options) :
    DistinctConfigs (fixTasks copies options) :=
  distinctConfigs_map (copiesByConfig copies).distinctKeys_entries fun _ => rfl

namespace World

/-- **Every config with targets is asked about once**, with all of its targets. -/
theorem detection_invocations_perm (w : World) (engine : Engine) (schedule : Schedule)
    (settings : AuditSettings) (roots : Roots) :
    ((w.detection engine schedule settings roots).exchanges.map Exchange.invocation).Perm
      (detectionTasks (w.detection engine schedule settings roots).targets settings.options) := by
  rw [detection, engine.map_invocation_exchanges]
  exact schedule.arrange_perm _

theorem mem_detectionTasks_of_detection {w : World} {engine : Engine} {schedule : Schedule}
    {settings : AuditSettings} {roots : Roots} {x : Exchange}
    (hx : x ∈ (w.detection engine schedule settings roots).exchanges) : x.invocation ∈
      detectionTasks (w.detection engine schedule settings roots).targets settings.options :=
  (w.detection_invocations_perm engine schedule settings roots).mem_iff.1 (List.mem_map_of_mem hx)

theorem distinctConfigs_detection (w : World) (engine : Engine) (schedule : Schedule)
    (settings : AuditSettings) (roots : Roots) : DistinctConfigs
      ((w.detection engine schedule settings roots).exchanges.map Exchange.invocation) :=
  (distinctConfigs_detectionTasks _ _).perm
    (w.detection_invocations_perm engine schedule settings roots).symm

theorem fixing_invocations_perm (w : World) (engine : Engine) (schedule : Schedule)
    (options : Options) (cases : List GoldenCase) :
    ((w.fixing engine schedule options cases).exchanges.map Exchange.invocation).Perm
      (fixTasks (w.fixing engine schedule options cases).copies options) := by
  rw [fixing, engine.map_invocation_exchanges]
  exact schedule.arrange_perm _

theorem distinctConfigs_fixing (w : World) (engine : Engine) (schedule : Schedule)
    (options : Options) (cases : List GoldenCase) : DistinctConfigs
      ((w.fixing engine schedule options cases).exchanges.map Exchange.invocation) :=
  (distinctConfigs_fixTasks _ _).perm
    (w.fixing_invocations_perm engine schedule options cases).symm

end World

/-! ## What a course consists of -/

namespace Course

variable {w : World} {engine : Engine} {schedule : Schedule} {settings : AuditSettings} {c : Course}

/-- What is judged, step by step, is what the engine answered in the first phase. -/
theorem judges (hc : w.course engine schedule settings = .ok c) :
    List.Forall₂ (Judges c.detection.world c.detection.targets)
      (Exchange.byConfig c.detection.exchanges).entries c.judged.steps := by
  obtain ⟨roots, -, -, hjudge, -, -⟩ := World.course_eq_ok hc
  exact World.judge_steps hjudge

theorem distinctConfigs_detection (hc : w.course engine schedule settings = .ok c) :
    DistinctConfigs (c.detection.exchanges.map Exchange.invocation) := by
  obtain ⟨roots, -, hd, -, -, -⟩ := World.course_eq_ok hc
  rw [hd]
  exact w.distinctConfigs_detection engine schedule settings roots

theorem distinctConfigs_fixing (hc : w.course engine schedule settings = .ok c) :
    DistinctConfigs (c.fixing.exchanges.map Exchange.invocation) := by
  obtain ⟨roots, -, -, -, -, hf⟩ := World.course_eq_ok hc
  rw [hf]
  exact World.distinctConfigs_fixing _ _ _ _ _

/-- The targets of an invocation of the first phase are those of its config. -/
theorem mem_targets (hc : w.course engine schedule settings = .ok c) {x : Exchange}
    (hx : x ∈ c.detection.exchanges) :
    (x.config, x.invocation.targets) ∈ c.detection.targets.entries ∧ x.invocation.targets ≠ [] := by
  obtain ⟨roots, -, hd, -, -, -⟩ := World.course_eq_ok hc
  rw [hd] at hx ⊢
  obtain ⟨he, hne, -⟩ := mem_detectionTasks (World.mem_detectionTasks_of_detection hx)
  exact ⟨he, hne⟩

/-- **Every config with targets is asked about.** -/
theorem exists_exchange (hc : w.course engine schedule settings = .ok c) {config : Path}
    {ts : List Path} (he : (config, ts) ∈ c.detection.targets.entries) (hne : ts ≠ []) :
    ∃ x ∈ c.detection.exchanges, x.config = config ∧ x.invocation.targets = ts := by
  obtain ⟨roots, -, hd, -, -, -⟩ := World.course_eq_ok hc
  have hperm := w.detection_invocations_perm engine schedule settings roots
  rw [← hd] at hperm
  have hmem : ⟨config, ts, settings.options⟩ ∈
      detectionTasks c.detection.targets settings.options :=
    List.mem_map.2 ⟨(config, ts), List.mem_filter.2 ⟨he, by simpa using hne⟩, rfl⟩
  obtain ⟨x, hx, hinvocation⟩ := List.mem_map.1 (hperm.mem_iff.2 hmem)
  exact ⟨x, hx, by rw [Exchange.config, hinvocation], by rw [hinvocation]⟩

theorem isAbsolute_targets (hc : w.course engine schedule settings = .ok c) :
    ∀ ts ∈ c.detection.targets.values, ∀ t ∈ ts, t.isAbsolute = true := by
  obtain ⟨roots, hroots, hd, -, -, -⟩ := World.course_eq_ok hc
  rw [hd]
  exact fun ts hts => World.isAbsolute_of_mem_ownedTargets (World.isAbsolute_rootsFor hroots) hts

end Course

/-! ## Runs -/

namespace Session

/-- A verification of fixes, told by the second phase: if a copy cannot be made, the engine is not
asked. -/
theorem checkFixes_eq (s : Session) (engine : Engine) (schedule : Schedule) (cases : List GoldenCase)
    (options : Options) : s.checkFixes engine schedule cases options =
      let f := s.world.fixing engine schedule options cases
      match (s.world.copyCases cases).2.1 with
      | some e => (.error e, ⟨(s.world.copyCases cases).2.2.dropCopies f.copies, s.asked⟩)
      | none =>
        ((f.world.compareCopies f.copies).map fun fixes => (fixes, Exchange.byConfig f.exchanges),
          ⟨f.world.dropCopies f.copies, s.asked ++ f.exchanges.map Exchange.invocation⟩) := by
  rw [checkFixes, World.fixing]
  rcases s.world.copyCases cases with ⟨copies, failure, w⟩
  cases failure with
  | some e => rfl
  | none =>
    simp only [invokeAll_eq _ engine schedule (distinctConfigs_fixTasks copies options),
      engine.map_invocation_exchanges]

theorem checkFixes_ok {s s' : Session} {engine : Engine} {schedule : Schedule}
    {cases : List GoldenCase} {options : Options} {fixes : List GoldenVerdict}
    {runs : OrderedMap Path Outcome}
    (h : s.checkFixes engine schedule cases options = (.ok (fixes, runs), s')) :
    runs = Exchange.byConfig (s.world.fixing engine schedule options cases).exchanges ∧
      s'.asked = s.asked ++
        (s.world.fixing engine schedule options cases).exchanges.map Exchange.invocation := by
  rw [checkFixes_eq] at h
  split at h
  next => cases h
  next =>
    obtain ⟨hresult, rfl⟩ := Prod.mk.inj h
    refine ⟨?_, rfl⟩
    cases hdiffs : (s.world.fixing engine schedule options cases).world.compareCopies
        (s.world.fixing engine schedule options cases).copies with
    | error e =>
      rw [hdiffs] at hresult
      cases hresult
    | ok diffs =>
      rw [hdiffs] at hresult
      cases hresult
      rfl

theorem fixPhase_ok {s s' : Session} {engine : Engine} {schedule : Schedule}
    {cases : List GoldenCase} {options : Options} {fixes : List GoldenVerdict}
    {runs : OrderedMap Path Outcome}
    (h : s.fixPhase engine schedule cases options = (.ok (fixes, runs), s')) :
    runs = Exchange.byConfig (s.world.fixing engine schedule options cases).exchanges ∧
      s'.asked = s.asked ++
        (s.world.fixing engine schedule options cases).exchanges.map Exchange.invocation := by
  rw [fixPhase] at h
  split at h
  next hempty =>
    -- Without cases there is nothing to ask.
    obtain rfl := List.isEmpty_iff.1 hempty
    have hperm := s.world.fixing_invocations_perm engine schedule options []
    have hnone : (s.world.fixing engine schedule options []).exchanges = [] :=
      List.map_eq_nil_iff.1 hperm.eq_nil
    cases h
    rw [hnone]
    exact ⟨rfl, by simp⟩
  next => exact checkFixes_ok h

/-- A run over roots that exist, told by its first phase. -/
theorem audit_eq (s : Session) (engine : Engine) (schedule : Schedule) {settings : AuditSettings}
    {roots : Roots} {d : Detection}
    (hroots : s.world.rootsFor settings.roots.target (some settings.roots.config) = .ok roots)
    (hd : s.world.detection engine schedule settings roots = d) :
    s.audit engine schedule settings =
      match d.world.judge d.targets (Exchange.byConfig d.exchanges) with
      | .error e => (.error e, ⟨d.world, s.asked ++ d.exchanges.map Exchange.invocation⟩)
      | .ok judged =>
        let golden := s.world.goldenPairs roots.target d.targets
        let next : Session := ⟨d.world, s.asked ++ d.exchanges.map Exchange.invocation⟩
        match next.fixPhase engine schedule (d.world.fixCases judged.passing golden)
            settings.options with
        | (.error e, s') => (.error e, s')
        | (.ok (fixes, runs), s') =>
          (.ok
            { report := Report.ofSteps s'.world.normalize
                (untestedSteps d.targets ++ judged.steps ++ d.world.ungoldenSteps golden ++
                  errorSteps runs ++ fixes.map .fix)
              fixes := fixes
              outputs :=
                (Exchange.byConfig d.exchanges).values.map (keptDocument .detection) ++
                  runs.values.map (keptDocument .autofix) },
            s') := by
  subst hd
  rw [audit, hroots]
  simp only [invokeAll_eq _ engine schedule (distinctConfigs_detectionTasks _ _)]
  simp only [World.detection, engine.map_invocation_exchanges]
  rfl

/-- **What a run asked and what it produced**, along its course. -/
theorem audit_eq_ok {s s' : Session} {engine : Engine} {schedule : Schedule}
    {settings : AuditSettings} {run : Audit}
    (h : s.audit engine schedule settings = (.ok run, s')) :
    ∃ c, s.world.course engine schedule settings = .ok c ∧
      s'.asked = s.asked ++ c.exchanges.map Exchange.invocation ∧
      run.report = Report.ofSteps s'.world.normalize (c.steps run.fixes) ∧
      run.outputs = c.outputs := by
  cases hroots : s.world.rootsFor settings.roots.target (some settings.roots.config) with
  | error e =>
    rw [audit, hroots] at h
    cases h
  | ok roots =>
    generalize hd : s.world.detection engine schedule settings roots = d
    rw [audit_eq s engine schedule hroots hd] at h
    cases hjudge : d.world.judge d.targets (Exchange.byConfig d.exchanges) with
    | error e =>
      rw [hjudge] at h
      cases h
    | ok judged =>
      have hcourse : s.world.course engine schedule settings = .ok
          ⟨d, s.world.goldenPairs roots.target d.targets, judged,
            d.world.fixing engine schedule settings.options (d.world.fixCases judged.passing
              (s.world.goldenPairs roots.target d.targets))⟩ := by
        simp only [World.course, hroots, hd, hjudge, bind, Except.bind, pure, Except.pure]
      refine ⟨_, hcourse, ?_⟩
      simp only [hjudge] at h
      split at h
      next => cases h
      next fixes runs next hphase =>
        obtain ⟨rfl, hasked⟩ := fixPhase_ok hphase
        cases h
        refine ⟨?_, rfl, rfl⟩
        rw [hasked, Course.exchanges, List.map_append, List.append_assoc]

/-- What a run asked and what it reports, along its course. -/
theorem audit_ok {s s' : Session} {engine : Engine} {schedule : Schedule}
    {settings : AuditSettings} {run : Audit}
    (h : s.audit engine schedule settings = (.ok run, s')) :
    ∃ c, s.world.course engine schedule settings = .ok c ∧
      s'.asked = s.asked ++ c.exchanges.map Exchange.invocation ∧
      run.report = Report.ofSteps s'.world.normalize (c.steps run.fixes) := by
  obtain ⟨c, hc, hasked, hreport, -⟩ := audit_eq_ok h
  exact ⟨c, hc, hasked, hreport⟩

/-- A run that something is known of has ended with a report. -/
theorem exists_run {s : Session} {engine : Engine} {schedule : Schedule} {settings : AuditSettings}
    {β : Type} {f : Audit → β} {v : β}
    (h : (s.audit engine schedule settings).1.toOption.map f = some v) :
    ∃ run s', s.audit engine schedule settings = (.ok run, s') ∧ f run = v := by
  obtain ⟨run, hrun, hv⟩ := map_toOption_eq_some_iff.1 h
  exact ⟨run, (s.audit engine schedule settings).2, Prod.ext hrun rfl, hv⟩

end Session

end RuleAudit
