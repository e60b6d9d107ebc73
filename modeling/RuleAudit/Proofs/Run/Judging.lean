import Mathlib.Data.List.Forall2
import RuleAudit.Proofs.Report.Gathering
import RuleAudit.Proofs.Run.Annotated
import RuleAudit.Run.Detection

/-!
# Judged answers

The answers of a phase are judged one after the other. In a run without mismatches each answer ends as
one step of the report, in the same order: a failed invocation as an error, any other as the verdicts of
its comparisons.
-/

namespace RuleAudit

/-- The step that an answer ends as, where no mismatch forbids it. -/
inductive Judges (w : World) (targets : OrderedMap Path (List Path)) :
    Path × Outcome → Report.Step → Prop where
  | failed {config : Path} {outcome : Outcome} {message : Text} :
      outcome.error = some message →
      Judges w targets (config, outcome) (.error config message outcome.scan.raw)
  | compared {config : Path} {outcome : Outcome} {annotated : Annotated} {table : RuleComparisons} :
      outcome.error = none →
      w.annotationsOf ((targets.get? config).getD []) = .ok annotated →
      compareFindings (.ofFindings w.normalize outcome.scan.findings) annotated = .ok table →
      Judges w targets (config, outcome) (.result config (.ofComparisons table))

namespace World

variable {w : World} {targets : OrderedMap Path (List Path)}

/-- What judging one answer comes to: an error is reported, or the findings of the answer are compared with
the annotations of the targets, which gives mismatches or a table. -/
theorem judgeOne_cases {j j' : Judged} {config : Path} {outcome : Outcome}
    (h : w.judgeOne targets j config outcome = .ok j') :
    (∃ message, outcome.error = some message ∧
      j' = { j with steps := j.steps ++ [.error config message outcome.scan.raw] }) ∨
    outcome.error = none ∧ ∃ annotated,
      w.annotationsOf ((targets.get? config).getD []) = .ok annotated ∧
      ((∃ ms, compareFindings (.ofFindings w.normalize outcome.scan.findings) annotated = .error ms ∧
        j' = { j with mismatches := j.mismatches ++ ms }) ∨
      ∃ table, compareFindings (.ofFindings w.normalize outcome.scan.findings) annotated = .ok table ∧
        j' = { j with
          steps := j.steps ++ [.result config (.ofComparisons table)]
          passing := j.passing.insert config
            (passingTargets w.normalize (.ofComparisons table)
              ((targets.get? config).getD [])) }) := by
  rw [judgeOne] at h
  cases herror : outcome.error with
  | some message =>
    simp only [herror] at h
    exact .inl ⟨message, rfl, (Except.ok.inj h).symm⟩
  | none =>
    simp only [herror] at h
    cases hnotes : w.annotationsOf ((targets.get? config).getD []) with
    | error e => simp [hnotes] at h
    | ok annotated =>
      simp only [hnotes] at h
      cases htable : compareFindings (.ofFindings w.normalize outcome.scan.findings) annotated with
      | error ms =>
        simp only [htable] at h
        exact .inr ⟨rfl, annotated, rfl, .inl ⟨ms, htable, (Except.ok.inj h).symm⟩⟩
      | ok table =>
        simp only [htable] at h
        exact .inr ⟨rfl, annotated, rfl, .inr ⟨table, htable, (Except.ok.inj h).symm⟩⟩

/-- One answer without a mismatch adds its step. -/
theorem judgeOne_step {j j' : Judged} {config : Path} {outcome : Outcome}
    (h : w.judgeOne targets j config outcome = .ok j') (hj' : j'.mismatches = []) :
    j.mismatches = [] ∧
      ∃ step, j'.steps = j.steps ++ [step] ∧ Judges w targets (config, outcome) step := by
  obtain ⟨message, herror, rfl⟩ | ⟨herror, annotated, hnotes, ⟨ms, hms, rfl⟩ | ⟨table, htable, rfl⟩⟩ :=
    judgeOne_cases h
  · exact ⟨hj', _, rfl, .failed herror⟩
  · obtain ⟨-, hne⟩ := compareFindings_eq_error_iff.1 hms
    exact absurd (List.append_eq_nil_iff.1 hj').2 hne
  · exact ⟨hj', _, rfl, .compared herror hnotes htable⟩

theorem judgeInto_steps {entries : List (Path × Outcome)} {j j' : Judged}
    (h : w.judgeInto targets j entries = .ok j') (hj' : j'.mismatches = []) :
    j.mismatches = [] ∧
      ∃ steps, j'.steps = j.steps ++ steps ∧ List.Forall₂ (Judges w targets) entries steps := by
  induction entries generalizing j with
  | nil =>
    obtain rfl := Except.ok.inj h
    exact ⟨hj', [], by simp, .nil⟩
  | cons e rest ih =>
    obtain ⟨config, outcome⟩ := e
    rw [judgeInto] at h
    cases hone : w.judgeOne targets j config outcome with
    | error e => simp [hone] at h
    | ok next =>
      simp only [hone] at h
      obtain ⟨hnext, steps, hsteps, hrest⟩ := ih h
      obtain ⟨hj, step, hstep, hjudges⟩ := judgeOne_step hone hnext
      exact ⟨hj, step :: steps, by simp [hsteps, hstep], .cons hjudges hrest⟩

/-- Answers can be judged if there is no mismatch in the end. -/
theorem judge_eq_ok {outcomes : OrderedMap Path Outcome} {judged : Judged}
    (h : w.judge targets outcomes = .ok judged) :
    w.judgeInto targets .none outcomes.entries = .ok judged ∧ judged.mismatches = [] := by
  rw [judge] at h
  cases hinto : w.judgeInto targets .none outcomes.entries with
  | error e => simp [hinto] at h
  | ok j =>
    simp only [hinto] at h
    split at h
    next hempty =>
      obtain rfl := Except.ok.inj h
      exact ⟨rfl, List.isEmpty_iff.1 hempty⟩
    next => cases h

/-- **Each answer ends as one step of the report**, in order. -/
theorem judge_steps {outcomes : OrderedMap Path Outcome} {judged : Judged}
    (h : w.judge targets outcomes = .ok judged) :
    List.Forall₂ (Judges w targets) outcomes.entries judged.steps := by
  obtain ⟨hinto, hnone⟩ := judge_eq_ok h
  obtain ⟨-, steps, hsteps, hall⟩ := judgeInto_steps hinto hnone
  rwa [hsteps]

/-- Where the lines of the targets agree, the verdicts of a compared answer all pass. -/
theorem allPass_of_linesAgree {ts : List Path} {annotated : Annotated} {findings : List Finding}
    {table : RuleComparisons} (hnotes : w.annotationsOf ts = .ok annotated)
    (htable : compareFindings (.ofFindings w.normalize findings) annotated = .ok table)
    (hagree : w.LinesAgree ts findings) : (ConfigVerdict.ofComparisons table).AllPass := by
  rw [eq_compareLines_of_ok htable]
  exact allPass_of_linesMatch ((linesMatch_iff hnotes).2 hagree)

/-- The verdicts of a compared answer all pass if and only if the lines of its targets agree, unless two of the
files in question share a text. -/
theorem allPass_iff_linesAgree {ts : List Path} {annotated : Annotated} {findings : List Finding}
    {table : RuleComparisons}
    (hfiles : Path.TextsApart ((ts ++ findings.map Finding.path).map w.normalize))
    (hnotes : w.annotationsOf ts = .ok annotated)
    (htable : compareFindings (.ofFindings w.normalize findings) annotated = .ok table) :
    (ConfigVerdict.ofComparisons table).AllPass ↔ w.LinesAgree ts findings := by
  have hcompared : Path.TextsApart (comparedFiles (.ofFindings w.normalize findings) annotated).elems :=
    hfiles.mono fun _ => exists_of_mem_comparedFiles hnotes
  rw [eq_compareLines_of_ok htable, allPass_iff_linesMatch hcompared, linesMatch_iff hnotes]

end World

/-! ## The steps together -/

section Steps

variable {w : World} {targets : OrderedMap Path (List Path)} {entries : List (Path × Outcome)}
  {steps : List Report.Step} (h : List.Forall₂ (Judges w targets) entries steps)
include h

/-- No step is an error if and only if no invocation failed. -/
theorem failures_of_judges :
    (∀ step ∈ steps, step.failure? = none) ↔ ∀ e ∈ entries, e.2.error = none := by
  induction h with
  | nil => simp
  | cons hhead _ ih =>
    rw [List.forall_mem_cons, List.forall_mem_cons, ih]
    refine and_congr_left fun _ => ?_
    cases hhead with
    | failed herror => simp [Report.Step.failure?, herror]
    | compared herror _ _ => simp [Report.Step.failure?, herror]

/-- Verdicts that fail are those of a config whose invocation did not fail and whose lines do not agree. -/
theorem failing_of_judges {v : Text × ConfigVerdict}
    (hv : v ∈ steps.filterMap Report.Step.verdicts?) (hfail : ¬ v.2.AllPass) :
    ∃ e ∈ entries, e.2.error = none ∧
      ¬ w.LinesAgree ((targets.get? e.1).getD []) e.2.scan.findings := by
  induction h with
  | nil => cases hv
  | @cons e step entries steps hhead _ ih =>
    rw [List.mem_filterMap, List.exists_mem_cons_iff, ← List.mem_filterMap] at hv
    rcases hv with hv | hv
    · refine ⟨e, List.mem_cons_self, ?_⟩
      cases hhead with
      | failed herror => cases hv
      | compared herror hnotes htable =>
        cases hv
        exact ⟨herror, fun hagree => hfail (World.allPass_of_linesAgree hnotes htable hagree)⟩
    · obtain ⟨e', he', hfailing⟩ := ih hv
      exact ⟨e', List.mem_cons_of_mem e he', hfailing⟩

/-- Some verdicts fail if and only if the lines of some config, whose invocation did not fail, do not
agree, unless two files share a text. -/
theorem failing_of_judges_iff
    (hfiles : ∀ e ∈ entries, e.2.error = none → Path.TextsApart
      (((targets.get? e.1).getD [] ++ e.2.scan.findings.map Finding.path).map w.normalize)) :
    (∃ v ∈ steps.filterMap Report.Step.verdicts?, ¬ v.2.AllPass) ↔
      ∃ e ∈ entries, e.2.error = none ∧
        ¬ w.LinesAgree ((targets.get? e.1).getD []) e.2.scan.findings := by
  induction h with
  | nil => simp
  | @cons e step entries steps hhead _ ih =>
    obtain ⟨he, hfiles⟩ := List.forall_mem_cons.1 hfiles
    rw [List.exists_mem_cons_iff, ← ih hfiles]
    cases hhead with
    | failed herror => simp [herror, List.filterMap_cons, Report.Step.verdicts?]
    | compared herror hnotes htable =>
      rw [← World.allPass_iff_linesAgree (he herror) hnotes htable]
      simp only [List.filterMap_cons, Report.Step.verdicts?, List.exists_mem_cons_iff, herror,
        true_and]

/-- Verdicts are those of the entries, in order. -/
theorem key_of_mem_verdicts {key : Text} {verdicts : ConfigVerdict}
    (hmem : (key, verdicts) ∈ steps.filterMap Report.Step.verdicts?) :
    ∃ e ∈ entries, e.1.display = key := by
  induction h with
  | nil => cases hmem
  | @cons e step entries steps hhead _ ih =>
    rw [List.mem_filterMap, List.exists_mem_cons_iff, ← List.mem_filterMap] at hmem
    rcases hmem with hmem | hmem
    · refine ⟨e, List.mem_cons_self, ?_⟩
      cases hhead with
      | failed _ => cases hmem
      | compared _ _ _ =>
        cases hmem
        rfl
    · obtain ⟨e', he', hkey⟩ := ih hmem
      exact ⟨e', List.mem_cons_of_mem _ he', hkey⟩

/-- No two steps have verdicts under the same text, unless two configs share it. -/
theorem distinctKeys_verdicts (hentries : OrderedMap.DistinctKeys entries)
    (htexts : Path.TextsApart (entries.map Prod.fst)) :
    OrderedMap.DistinctKeys (steps.filterMap Report.Step.verdicts?) := by
  induction h with
  | nil => exact .nil
  | @cons e step entries steps hhead hrest ih =>
    have hkeys := List.pairwise_cons.1 hentries
    have hlater := ih hkeys.2 (htexts.mono fun _ => List.mem_cons_of_mem e.1)
    cases hhead with
    | failed _ => simpa [List.filterMap_cons, Report.Step.verdicts?] using hlater
    | @compared config outcome annotated table _ _ _ =>
      simp only [List.filterMap_cons, Report.Step.verdicts?]
      refine hlater.cons ?_
      rintro ⟨key, verdicts⟩ hmem hsame
      obtain ⟨e', he', rfl⟩ := key_of_mem_verdicts hrest hmem
      refine hkeys.1 e' he' (Path.compare_eq_iff.2 (htexts _ List.mem_cons_self _ ?_ ?_))
      · exact List.mem_cons_of_mem _ (List.mem_map_of_mem he')
      · exact Std.LawfulEqOrd.compare_eq_iff_eq.1 hsame

end Steps

end RuleAudit
