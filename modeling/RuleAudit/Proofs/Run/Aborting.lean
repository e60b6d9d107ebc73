import RuleAudit.Proofs.Fixing.Comparing
import RuleAudit.Proofs.Run.ExitCode

/-!
# Runs that end with mismatches

A rule id that is annotated but not reported, or the other way round, ends a run: after all answers of the
first phase have been looked at, and before anything is copied or fixed. The error lists the mismatches of
all configs that were answered with findings.
-/

namespace RuleAudit

namespace World

variable {w : World}

/-- The mismatches of an outcome: those of its findings with the annotations of some targets. A failed one
has none. -/
def mismatchesOf (w : World) (ts : List Path) (o : Outcome) : List Mismatch :=
  match o.error, w.annotationsOf ts with
  | none, .ok annotated => mismatches (.ofFindings w.normalize o.scan.findings) annotated
  | _, _ => []

/-- The mismatches of some answers with the targets of their configs, in order. -/
def allMismatches (w : World) (targets : OrderedMap Path (List Path))
    (entries : List (Path × Outcome)) : List Mismatch :=
  entries.flatMap fun e => w.mismatchesOf ((targets.get? e.1).getD []) e.2

/-- An exchange has mismatches if and only if it was answered with findings whose ids do not match those
of its targets. -/
theorem mismatchesOf_ne_nil_iff {x : Exchange} : w.mismatchesOf x.invocation.targets x.outcome ≠ [] ↔
    ∃ scan annotated, x.reply = .found scan ∧ w.annotationsOf x.invocation.targets = .ok annotated ∧
      ¬ IdsMatch w.normalize scan.findings annotated := by
  obtain ⟨invocation, reply⟩ := x
  cases reply with
  | found scan =>
    cases hnotes : w.annotationsOf invocation.targets with
    | error e => simp [mismatchesOf, hnotes]
    | ok annotated =>
      simp [mismatchesOf, hnotes, Exchange.outcome, Outcome.ofReply, mismatches_eq_nil_iff]
  | failed e => simp [mismatchesOf, Exchange.outcome, Outcome.ofReply]
  | crashed reason => simp [mismatchesOf, Exchange.outcome, Outcome.ofReply]

end World

/-- The mismatches of a first phase, in the order of the configs. -/
def Detection.mismatches (d : Detection) : List Mismatch :=
  (Exchange.inOrder d.exchanges).flatMap fun x => d.world.mismatchesOf x.invocation.targets x.outcome

/-- A first phase has mismatches if and only if some exchange was answered with findings whose ids do not
match those of its targets. -/
theorem Detection.mismatches_ne_nil_iff {d : Detection} : d.mismatches ≠ [] ↔
    ∃ x ∈ d.exchanges, ∃ scan annotated, x.reply = .found scan ∧
      d.world.annotationsOf x.invocation.targets = .ok annotated ∧
      ¬ IdsMatch d.world.normalize scan.findings annotated := by
  simp only [mismatches, ne_eq, List.flatMap_eq_nil_iff, (Exchange.inOrder_perm d.exchanges).mem_iff,
    not_forall, exists_prop]
  exact exists_congr fun x => and_congr_right fun _ => World.mismatchesOf_ne_nil_iff

/-! ## Judging -/

namespace World

variable {w : World} {targets : OrderedMap Path (List Path)}

/-- Targets that can be read have annotations. -/
theorem exists_annotateInto {ts : List Path} (h : ∀ t ∈ ts, ∃ text, w.readText t = .ok text)
    (known : Annotated) : ∃ annotated, w.annotateInto known ts = .ok annotated := by
  induction ts generalizing known with
  | nil => exact ⟨known, rfl⟩
  | cons t rest ih =>
    obtain ⟨⟨text, htext⟩, hrest⟩ := List.forall_mem_cons.1 h
    simp only [annotateInto, htext]
    exact ih hrest _

/-- One answer adds its mismatches. -/
theorem judgeOne_mismatches {j j' : Judged} {config : Path} {outcome : Outcome}
    (h : w.judgeOne targets j config outcome = .ok j') :
    j'.mismatches = j.mismatches ++ w.mismatchesOf ((targets.get? config).getD []) outcome := by
  obtain ⟨message, herror, rfl⟩ | ⟨herror, annotated, hnotes, ⟨ms, hms, rfl⟩ | ⟨table, htable, rfl⟩⟩ :=
    judgeOne_cases h
  · simp [mismatchesOf, herror]
  · simp [mismatchesOf, herror, hnotes, (compareFindings_eq_error_iff.1 hms).1]
  · have hnone : mismatches (.ofFindings w.normalize outcome.scan.findings) annotated = [] := by
      rw [compareFindings] at htable
      split at htable
      next hnil => exact hnil
      next => cases htable
    simp [mismatchesOf, herror, hnotes, hnone]

/-- Judging adds up the mismatches of all answers. -/
theorem judgeInto_mismatches {entries : List (Path × Outcome)} {j j' : Judged}
    (h : w.judgeInto targets j entries = .ok j') :
    j'.mismatches = j.mismatches ++ w.allMismatches targets entries := by
  induction entries generalizing j with
  | nil =>
    obtain rfl := Except.ok.inj h
    simp [allMismatches]
  | cons e rest ih =>
    obtain ⟨config, outcome⟩ := e
    rw [judgeInto] at h
    cases hone : w.judgeOne targets j config outcome with
    | error e => simp [hone] at h
    | ok next =>
      simp only [hone] at h
      rw [ih h, judgeOne_mismatches hone, List.append_assoc]
      rfl

/-- An answer can be judged unless it has findings and a target cannot be read. -/
theorem exists_judgeOne {config : Path} {outcome : Outcome}
    (h : outcome.error = none → ∀ t ∈ (targets.get? config).getD [], ∃ text, w.readText t = .ok text)
    (j : Judged) : ∃ j', w.judgeOne targets j config outcome = .ok j' := by
  rw [judgeOne]
  cases herror : outcome.error with
  | some message => exact ⟨_, rfl⟩
  | none =>
    obtain ⟨annotated, hnotes⟩ := exists_annotateInto (h herror) .empty
    simp only [annotationsOf, hnotes]
    split <;> exact ⟨_, rfl⟩

theorem exists_judgeInto {entries : List (Path × Outcome)}
    (h : ∀ e ∈ entries, e.2.error = none →
      ∀ t ∈ (targets.get? e.1).getD [], ∃ text, w.readText t = .ok text)
    (j : Judged) : ∃ j', w.judgeInto targets j entries = .ok j' := by
  induction entries generalizing j with
  | nil => exact ⟨j, rfl⟩
  | cons e rest ih =>
    obtain ⟨he, hrest⟩ := List.forall_mem_cons.1 h
    obtain ⟨next, hone⟩ := exists_judgeOne he j
    rw [judgeInto]
    simp only [hone]
    exact ih hrest next

/-- **What judging comes to** where all targets can be read: the mismatches of all answers, if there are
any. -/
theorem judge_error_iff {outcomes : OrderedMap Path Outcome}
    (h : ∀ e ∈ outcomes.entries, e.2.error = none →
      ∀ t ∈ (targets.get? e.1).getD [], ∃ text, w.readText t = .ok text) (e : RunError) :
    w.judge targets outcomes = .error e ↔
      w.allMismatches targets outcomes.entries ≠ [] ∧
        e = .ruleIdMismatch (w.allMismatches targets outcomes.entries) := by
  obtain ⟨judged, hinto⟩ := exists_judgeInto h .none
  have hall : judged.mismatches = w.allMismatches targets outcomes.entries := by
    simpa [Judged.none] using judgeInto_mismatches hinto
  rw [judge, hinto, ← hall]
  by_cases hnone : judged.mismatches = []
  · simp [hnone]
  · simp only [List.isEmpty_iff, hnone, if_false, Except.error.injEq, ne_eq, not_false_eq_true,
      true_and]
    exact eq_comm

section Detection

variable {engine : Engine} {schedule : Schedule} {settings : AuditSettings} {roots : Roots}
  {d : Detection} (hd : w.detection engine schedule settings roots = d)
include hd

theorem distinctConfigs_of_eq : DistinctConfigs (d.exchanges.map Exchange.invocation) := by
  rw [← hd]
  exact w.distinctConfigs_detection engine schedule settings roots

/-- The targets of an invocation of the first phase are those of its config. -/
theorem get?_targets_of_eq {x : Exchange} (hx : x ∈ d.exchanges) :
    d.targets.get? x.config = some x.invocation.targets := by
  subst hd
  exact OrderedMap.get?_of_mem (mem_detectionTasks (mem_detectionTasks_of_detection hx)).1

/-- The mismatches of a first phase are those of its exchanges. -/
theorem allMismatches_detection :
    d.world.allMismatches d.targets (Exchange.byConfig d.exchanges).entries = d.mismatches := by
  rw [allMismatches, Exchange.entries_byConfig (distinctConfigs_of_eq hd), List.flatMap_map,
    Detection.mismatches]
  refine List.flatMap_congr fun x hx => ?_
  rw [get?_targets_of_eq hd ((Exchange.inOrder_perm _).mem_iff.1 hx), Option.getD_some]

/-- **Judging a first phase** whose targets can be read ends with its mismatches, if there are any, and in
no other error. -/
theorem judge_detection_error_iff
    (hread : ∀ x ∈ d.exchanges, (∃ scan, x.reply = .found scan) →
      ∀ t ∈ x.invocation.targets, ∃ text, d.world.readText t = .ok text) (e : RunError) :
    d.world.judge d.targets (Exchange.byConfig d.exchanges) = .error e ↔
      d.mismatches ≠ [] ∧ e = .ruleIdMismatch d.mismatches := by
  rw [judge_error_iff, allMismatches_detection hd]
  intro e he hnone
  obtain ⟨x, hx, rfl⟩ := (Exchange.mem_entries_byConfig_iff (distinctConfigs_of_eq hd)).1 he
  rw [get?_targets_of_eq hd hx, Option.getD_some]
  exact hread x hx (Exchange.error_outcome_eq_none_iff.1 hnone)

end Detection

end World

/-! ## Runs -/

namespace Session

/-- A phase that verifies fixes ends with an error only about a file. -/
theorem file_of_fixPhase {s s' : Session} {engine : Engine} {schedule : Schedule}
    {cases : List GoldenCase} {options : Options} {e : RunError}
    (h : s.fixPhase engine schedule cases options = (.error e, s')) : ∃ p cause, e = .file p cause := by
  rw [fixPhase] at h
  split at h
  next => cases h
  next =>
    rw [checkFixes_eq] at h
    split at h
    next hfailure =>
      obtain ⟨he, -⟩ := Prod.mk.inj h
      obtain rfl := Except.error.inj he
      exact World.file_of_copyCases hfailure
    next =>
      obtain ⟨hresult, -⟩ := Prod.mk.inj h
      cases hdiffs : (s.world.fixing engine schedule options cases).world.compareCopies
          (s.world.fixing engine schedule options cases).copies with
      | error e' =>
        rw [hdiffs] at hresult
        obtain rfl := Except.error.inj hresult
        exact World.file_of_compareCopies hdiffs
      | ok diffs =>
        rw [hdiffs] at hresult
        cases hresult

/-- **A run ends with mismatches** if and only if judging its first phase does, and then nothing has
happened after that phase. -/
theorem ruleIdMismatch_of_audit {s s' : Session} {engine : Engine} {schedule : Schedule}
    {settings : AuditSettings} {roots : Roots} {d : Detection} {result : Except RunError Audit}
    (hroots : s.world.rootsFor settings.roots.target (some settings.roots.config) = .ok roots)
    (hd : s.world.detection engine schedule settings roots = d)
    (h : s.audit engine schedule settings = (result, s')) (ms : List Mismatch) :
    (result = .error (.ruleIdMismatch ms) ↔
      d.world.judge d.targets (Exchange.byConfig d.exchanges) = .error (.ruleIdMismatch ms)) ∧
    (result = .error (.ruleIdMismatch ms) →
      s' = ⟨d.world, s.asked ++ d.exchanges.map Exchange.invocation⟩) := by
  rw [audit_eq s engine schedule hroots hd] at h
  cases hjudge : d.world.judge d.targets (Exchange.byConfig d.exchanges) with
  | error e =>
    rw [hjudge] at h
    obtain ⟨rfl, rfl⟩ := Prod.mk.inj h
    simp
  | ok judged =>
    simp only [hjudge] at h
    -- Past the judging a run can end with an error about a file only.
    have hother : result ≠ .error (.ruleIdMismatch ms) := by
      split at h
      next e _ hphase =>
        obtain ⟨rfl, -⟩ := Prod.mk.inj h
        obtain ⟨p, cause, rfl⟩ := file_of_fixPhase hphase
        simp
      next =>
        obtain ⟨rfl, -⟩ := Prod.mk.inj h
        simp
    simp [hother]

end Session

/-- **A rule id mismatch ends a run** that has roots and targets that can be read, whatever becomes of the
invocations: it does so exactly if some config was answered with findings whose ids do not match those of
its targets. The error lists the mismatches of all configs in their order, where failed ones have none. By
then the engine was only asked to detect, and the files are as the first phase left them. -/
theorem abort_of_mismatches {s s' : Session} {engine : Engine} {schedule : Schedule}
    {settings : AuditSettings} {roots : Roots} {d : Detection} {result : Except RunError Audit}
    (hroots : s.world.rootsFor settings.roots.target (some settings.roots.config) = .ok roots)
    (hd : s.world.detection engine schedule settings roots = d)
    (hread : ∀ x ∈ d.exchanges, (∃ scan, x.reply = .found scan) →
      ∀ t ∈ x.invocation.targets, ∃ text, d.world.readText t = .ok text)
    (h : s.audit engine schedule settings = (result, s')) :
    ((∃ ms, result = .error (.ruleIdMismatch ms)) ↔
      ∃ x ∈ d.exchanges, ∃ scan annotated, x.reply = .found scan ∧
        d.world.annotationsOf x.invocation.targets = .ok annotated ∧
        ¬ IdsMatch d.world.normalize scan.findings annotated) ∧
    ∀ ms, result = .error (.ruleIdMismatch ms) →
      (∃ xs : List Exchange, xs.Perm d.exchanges ∧
        xs.Pairwise (fun x y => Before x.config y.config) ∧
          ms = xs.flatMap fun x => d.world.mismatchesOf x.invocation.targets x.outcome) ∧
      s'.asked = s.asked ++ d.exchanges.map Exchange.invocation ∧
      (∀ x ∈ d.exchanges, x.invocation.options.autofix = false) ∧ s'.world = d.world := by
  have hiff : ∀ ms, result = .error (.ruleIdMismatch ms) ↔
      d.mismatches ≠ [] ∧ ms = d.mismatches := by
    intro ms
    rw [(Session.ruleIdMismatch_of_audit hroots hd h ms).1, World.judge_detection_error_iff hd hread,
      RunError.ruleIdMismatch.injEq]
  constructor
  · have hsome : (∃ ms, result = .error (.ruleIdMismatch ms)) ↔ d.mismatches ≠ [] := by
      simp only [hiff, exists_and_left, exists_eq, and_true]
    exact hsome.trans Detection.mismatches_ne_nil_iff
  · intro ms hms
    have hs' := (Session.ruleIdMismatch_of_audit hroots hd h ms).2 hms
    subst hs'
    refine ⟨⟨_, Exchange.inOrder_perm _, ?_, ((hiff ms).1 hms).2⟩, rfl, ?_, rfl⟩
    · exact Exchange.inOrder_ascending (World.distinctConfigs_of_eq hd)
    · intro x hx
      rw [← hd] at hx
      rw [(mem_detectionTasks (World.mem_detectionTasks_of_detection hx)).2.2]
      rfl

/-- Two configs whose targets misspell their id, and one that fails: the run ends with the mismatches of the
first two. -/
theorem abort_of_two_misspelt_ids :
    let world : World :=
      { tree := Tree.ofTexts
          [(["r".toList], .directory), (["tmp".toList], .directory),
            (["a.yaml".toList, "r".toList], .file [] false),
            (["b.yaml".toList, "r".toList], .file [] false),
            (["c.yaml".toList, "r".toList], .file [] false),
            (["a.py".toList, "r".toList], .file (Utf8.encode "# ruleid: xx".toList) false),
            (["b.py".toList, "r".toList], .file [] false),
            (["c.py".toList, "r".toList], .file (Utf8.encode "# ok: xx".toList) false)]
        home := []
        scratch := Place.ofTexts ["tmp".toList] }
    let engine : Engine := fun i w =>
      if i.config.display = "/r/b.yaml".toList then (.failed (.malformed "no rules".toList), w)
      else (.found ⟨i.targets.map fun t => ⟨"x".toList, t, 2⟩, .null⟩, w)
    let settings : AuditSettings :=
      ⟨⟨⟨"/r".toList⟩, ⟨"/r".toList⟩⟩, true, false, Optimizations.none⟩
    let roots : Roots := ⟨⟨"/r".toList⟩, ⟨"/r".toList⟩⟩
    let d := world.detection engine .inTurn settings roots
    world.rootsFor settings.roots.target (some settings.roots.config) = .ok roots ∧
      (∀ x ∈ d.exchanges, (∃ scan, x.reply = .found scan) →
        ∀ t ∈ x.invocation.targets, ∃ text, d.world.readText t = .ok text) ∧
      ∃ ms s', (Session.start world).audit engine .inTurn settings =
          (.error (.ruleIdMismatch ms), s') ∧
        ms.map Mismatch.file = [⟨"/r/a.py".toList⟩, ⟨"/r/c.py".toList⟩] ∧
        s'.asked = d.exchanges.map Exchange.invocation ∧ s'.world = d.world := by
  intro world engine settings roots d
  have hroots : world.rootsFor settings.roots.target (some settings.roots.config) = .ok roots := by
    decide +kernel
  have hd : (Session.start world).world.detection engine .inTurn settings roots = d := rfl
  have hreadable : (d.exchanges.all fun x => x.invocation.targets.all fun t =>
      (d.world.readText t).isOk) = true := by
    decide +kernel
  have hread : ∀ x ∈ d.exchanges, (∃ scan, x.reply = .found scan) →
      ∀ t ∈ x.invocation.targets, ∃ text, d.world.readText t = .ok text := by
    intro x hx _ t ht
    exact World.exists_readText (List.all_eq_true.1 (List.all_eq_true.1 hreadable x hx) t ht)
  have hended : (match ((Session.start world).audit engine .inTurn settings).1 with
      | .error (.ruleIdMismatch ms) => some (ms.map Mismatch.file)
      | _ => none) = some [⟨"/r/a.py".toList⟩, ⟨"/r/c.py".toList⟩] := by
    decide +kernel
  rcases hrun : (Session.start world).audit engine .inTurn settings with ⟨result, s'⟩
  rw [hrun] at hended
  split at hended
  next ms hms =>
    obtain rfl : result = .error (.ruleIdMismatch ms) := hms
    obtain ⟨-, hdone⟩ := abort_of_mismatches hroots hd hread hrun
    obtain ⟨-, hasked, -, hworld⟩ := hdone ms rfl
    rw [Session.start, List.nil_append] at hasked
    exact ⟨hroots, hread, ms, s', rfl, Option.some.inj hended, hasked, hworld⟩
  next => cases hended

end RuleAudit
