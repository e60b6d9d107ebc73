import RuleAudit.Proofs.Files.Ways
import RuleAudit.Proofs.Run.Judging

/-!
# Targets that passed detection

The targets that passed are kept for each config whose answer was judged. They depend on the verdicts of
that config only, so what another config says about a shared target has no part in them.
-/

namespace RuleAudit.World

/-- The passing targets that a step adds: those of a config with verdicts. -/
def passing? (w : World) (targets : OrderedMap Path (List Path)) :
    Report.Step → Option (Path × OrderedSet Path)
  | .result config verdicts =>
    some (config, passingTargets w.normalize verdicts ((targets.get? config).getD []))
  | _ => none

/-- The findings of a scan can be compared with the annotations of some targets, and every comparison
under the text of the path that a target is normalized to has equal lines. -/
def PassedIn (w : World) (targets : List Path) (scan : Scan) (t : Path) : Prop :=
  ∃ annotated table, w.annotationsOf targets = .ok annotated ∧
    compareFindings (.ofFindings w.normalize scan.findings) annotated = .ok table ∧
    ∀ rule m, table.at? rule (w.normalize t).display = some m → m.expected = m.reported

variable {w : World} {targets : OrderedMap Path (List Path)}

/-! ## Gathering -/

theorem judgeOne_passing {j j' : Judged} {config : Path} {outcome : Outcome}
    (h : w.judgeOne targets j config outcome = .ok j') :
    ∃ steps, j'.steps = j.steps ++ steps ∧
      j'.passing = (steps.filterMap (w.passing? targets)).foldl (fun m e => m.insert e.1 e.2)
        j.passing := by
  obtain ⟨message, -, rfl⟩ | ⟨-, annotated, -, ⟨ms, -, rfl⟩ | ⟨table, -, rfl⟩⟩ := judgeOne_cases h
  · exact ⟨_, rfl, rfl⟩
  · exact ⟨[], by simp, rfl⟩
  · exact ⟨_, rfl, rfl⟩

theorem judgeInto_passing {entries : List (Path × Outcome)} {j j' : Judged}
    (h : w.judgeInto targets j entries = .ok j') :
    ∃ steps, j'.steps = j.steps ++ steps ∧
      j'.passing = (steps.filterMap (w.passing? targets)).foldl (fun m e => m.insert e.1 e.2)
        j.passing := by
  induction entries generalizing j with
  | nil =>
    obtain rfl := Except.ok.inj h
    exact ⟨[], by simp, rfl⟩
  | cons e rest ih =>
    obtain ⟨config, outcome⟩ := e
    rw [judgeInto] at h
    cases hone : w.judgeOne targets j config outcome with
    | error e => simp [hone] at h
    | ok next =>
      simp only [hone] at h
      obtain ⟨steps, hsteps, hpassing⟩ := judgeOne_passing hone
      obtain ⟨later, hlater, hrest⟩ := ih h
      refine ⟨steps ++ later, by rw [hlater, hsteps, List.append_assoc], ?_⟩
      rw [hrest, hpassing, List.filterMap_append, List.foldl_append]

/-- **The passing targets are those of the judged steps.** -/
theorem judge_passing {outcomes : OrderedMap Path Outcome} {judged : Judged}
    (h : w.judge targets outcomes = .ok judged) :
    judged.passing = OrderedMap.ofList (judged.steps.filterMap (w.passing? targets)) := by
  obtain ⟨steps, hsteps, hpassing⟩ := judgeInto_passing (judge_eq_ok h).1
  rw [hpassing, hsteps]
  rfl

/-- The configs with passing targets are some of those that were judged, in order. -/
theorem passing_keys_sublist {entries : List (Path × Outcome)} {steps : List Report.Step}
    (h : List.Forall₂ (Judges w targets) entries steps) :
    ((steps.filterMap (w.passing? targets)).map Prod.fst).Sublist (entries.map Prod.fst) := by
  induction h with
  | nil => exact .slnil
  | @cons e step entries steps hhead _ ih =>
    cases hhead with
    | failed _ => exact ih.cons _
    | compared _ _ _ => exact ih.cons_cons _

theorem distinctKeys_passing {entries : List (Path × Outcome)} {steps : List Report.Step}
    (h : List.Forall₂ (Judges w targets) entries steps) (hentries : OrderedMap.DistinctKeys entries) :
    OrderedMap.DistinctKeys (steps.filterMap (w.passing? targets)) := by
  have hkeys : (entries.map Prod.fst).Pairwise fun a b => compare a b ≠ .eq :=
    List.pairwise_map.2 hentries
  exact List.pairwise_map.1 (hkeys.sublist (passing_keys_sublist h))

/-- The passing targets of a config come from its own answer. -/
theorem mem_passing_iff {entries : List (Path × Outcome)} {steps : List Report.Step}
    (h : List.Forall₂ (Judges w targets) entries steps) {config : Path} {passed : OrderedSet Path} :
    (config, passed) ∈ steps.filterMap (w.passing? targets) ↔
      ∃ outcome annotated table, (config, outcome) ∈ entries ∧ outcome.error = none ∧
        w.annotationsOf ((targets.get? config).getD []) = .ok annotated ∧
        compareFindings (.ofFindings w.normalize outcome.scan.findings) annotated = .ok table ∧
        passed = passingTargets w.normalize (.ofComparisons table)
          ((targets.get? config).getD []) := by
  induction h with
  | nil => simp
  | @cons e step entries steps hhead _ ih =>
    cases hhead with
    | @failed config' outcome message herror =>
      rw [List.filterMap_cons_none rfl, ih]
      constructor
      · rintro ⟨outcome', annotated, table, hmem, hrest⟩
        exact ⟨outcome', annotated, table, List.mem_cons_of_mem _ hmem, hrest⟩
      · rintro ⟨outcome', annotated, table, hmem, hnone, hrest⟩
        rcases List.mem_cons.1 hmem with hhere | hmem
        · cases hhere
          cases herror.symm.trans hnone
        · exact ⟨outcome', annotated, table, hmem, hnone, hrest⟩
    | @compared config' outcome annotated table herror hnotes htable =>
      simp only [List.filterMap_cons, passing?]
      rw [List.mem_cons, ih]
      constructor
      · rintro (hhere | ⟨outcome', annotated', table', hmem, hrest⟩)
        · cases hhere
          exact ⟨outcome, annotated, table, List.mem_cons_self, herror, hnotes, htable, rfl⟩
        · exact ⟨outcome', annotated', table', List.mem_cons_of_mem _ hmem, hrest⟩
      · rintro ⟨outcome', annotated', table', hmem, hnone, hnotes', htable', rfl⟩
        rcases List.mem_cons.1 hmem with hhere | hmem
        · cases hhere
          cases hnotes.symm.trans hnotes'
          cases htable.symm.trans htable'
          exact .inl rfl
        · exact .inr ⟨outcome', annotated', table', hmem, hnone, hnotes', htable', rfl⟩

/-! ## Which targets passed -/

theorem has_of_annotationsOf {ts : List Path} {annotated : Annotated}
    (h : w.annotationsOf ts = .ok annotated) : ∀ t ∈ ts, w.has t = true := by
  intro t ht
  obtain ⟨text, htext⟩ := readText_of_annotateInto h t ht
  obtain ⟨place, bytes, runnable, hloc, -⟩ := readText_eq_ok_iff.1 htext
  rw [has, hloc]
  rfl

/-- A target is among the passing ones if and only if every comparison under the path that it is
normalized to passed. Another spelling of the target makes no difference. -/
theorem contains_passingTargets_iff {ts : List Path} {annotated : Annotated} {table : RuleComparisons}
    (habs : ∀ t ∈ ts, t.isAbsolute = true) (hnotes : w.annotationsOf ts = .ok annotated) {t : Path}
    (ht : t ∈ ts) :
    (passingTargets w.normalize (.ofComparisons table) ts).contains t = true ↔
      ∀ rule m, table.at? rule (w.normalize t).display = some m → m.expected = m.reported := by
  have hpassed : ∀ m : LineComparison, m.passed = true ↔ m.expected = m.reported :=
    fun m => beq_iff_eq
  rw [passingTargets, OrderedSet.contains_ofList, List.any_eq_true]
  simp only [← hpassed, ← fails_ofComparisons_iff, List.mem_filter, Bool.not_eq_true', beq_iff_eq,
    Path.compare_eq_iff]
  constructor
  · rintro ⟨t', ⟨ht', hfails⟩, hsame⟩
    have hhas := has_of_annotationsOf hnotes
    rwa [normalize_eq_of_same (habs t ht) (habs t' ht') hsame (hhas t ht) (hhas t' ht')]
  · intro hfails
    exact ⟨t, ⟨ht, hfails⟩, Path.same_self t⟩

/-- **Which targets of a config passed**: those that passed by the findings of the config's own answer,
if it was answered with findings. -/
theorem passing_iff {outcomes : OrderedMap Path Outcome} {judged : Judged}
    (h : w.judge targets outcomes = .ok judged)
    (houtcomes : ∀ e ∈ outcomes.entries, ∃ ts, (e.1, ts) ∈ targets.entries)
    (habs : ∀ ts ∈ targets.values, ∀ t ∈ ts, t.isAbsolute = true) {config : Path} {ts : List Path}
    (hts : (config, ts) ∈ targets.entries) {t : Path} (ht : t ∈ ts) :
    (∃ passed, judged.passing.get? config = some passed ∧ passed.contains t = true) ↔
      ∃ outcome, (config, outcome) ∈ outcomes.entries ∧ outcome.error = none ∧
        w.PassedIn ts outcome.scan t := by
  have hjudges := judge_steps h
  have hperm := OrderedMap.entries_ofList_perm
    (distinctKeys_passing hjudges outcomes.distinctKeys_entries)
  have hget := OrderedMap.get?_of_mem hts
  have hts' : ∀ t ∈ ts, t.isAbsolute = true :=
    habs ts (OrderedMap.mem_values_iff.2 ⟨config, hget⟩)
  have hmem : ∀ passed, judged.passing.get? config = some passed ↔
      ∃ outcome annotated table, (config, outcome) ∈ outcomes.entries ∧ outcome.error = none ∧
        w.annotationsOf ts = .ok annotated ∧
        compareFindings (.ofFindings w.normalize outcome.scan.findings) annotated = .ok table ∧
        passed = passingTargets w.normalize (.ofComparisons table) ts := by
    intro passed
    have hstored : (config, passed) ∈ judged.passing.entries ↔
        (config, passed) ∈ judged.steps.filterMap (w.passing? targets) := by
      rw [judge_passing h, hperm.mem_iff]
    rw [mem_passing_iff hjudges, hget, Option.getD_some] at hstored
    rw [← hstored, OrderedMap.get?_eq_some_iff]
    constructor
    · rintro ⟨config', hsame, hentry⟩
      -- The config is spelled as it was when its targets were looked for.
      have hlisted := hentry
      rw [judge_passing h, hperm.mem_iff, mem_passing_iff hjudges] at hlisted
      obtain ⟨outcome, -, -, houtcome, -⟩ := hlisted
      obtain ⟨ts', hts'⟩ := houtcomes _ houtcome
      obtain ⟨rfl, -⟩ := Prod.ext_iff.1 (OrderedMap.eq_of_mem hts hts' hsame)
      exact hentry
    · exact fun hentry => ⟨config, Std.ReflCmp.compare_self, hentry⟩
  constructor
  · rintro ⟨passed, hpassed, hcontains⟩
    obtain ⟨outcome, annotated, table, hentry, hnone, hnotes, htable, rfl⟩ := (hmem passed).1 hpassed
    exact ⟨outcome, hentry, hnone, annotated, table, hnotes, htable,
      (contains_passingTargets_iff hts' hnotes ht).1 hcontains⟩
  · rintro ⟨outcome, hentry, hnone, annotated, table, hnotes, htable, hlines⟩
    exact ⟨_, (hmem _).2 ⟨outcome, annotated, table, hentry, hnone, hnotes, htable, rfl⟩,
      (contains_passingTargets_iff hts' hnotes ht).2 hlines⟩

end RuleAudit.World
