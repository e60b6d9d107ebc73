import RuleAudit.Proofs.Scoring.Passing
import RuleAudit.Report.Model

/-!
# What a report gathers

A report is built step by step. Its errors and its verdicts are those of the steps, whatever else is
gathered between them, and the exit code depends on nothing else.
-/

namespace RuleAudit.Report

/-- The failed engine run that a step adds. -/
def Step.failure? : Step → Option FailedConfig
  | .error config message output => some ⟨config.display, message, output⟩
  | _ => none

/-- The verdicts that a step adds, with the text of their config. -/
def Step.verdicts? : Step → Option (Text × ConfigVerdict)
  | .result config verdicts => some (config.display, verdicts)
  | _ => none

/-! ## Gathering -/

/-- A list of a report grows step by step: what each step adds to it comes at its end. -/
theorem foldl_take_eq_append {α : Type} {place : Path → Path} {list : Report → List α}
    {added? : Step → Option α}
    (hstep : ∀ r step, list (take place r step) = list r ++ (added? step).toList)
    (steps : List Step) (r : Report) :
    list (steps.foldl (take place) r) = list r ++ steps.filterMap added? := by
  induction steps generalizing r with
  | nil => simp
  | cons step rest ih =>
    rw [List.foldl_cons, ih, hstep]
    cases hadded : added? step <;> simp [hadded]

theorem errors_foldl_take (place : Path → Path) (steps : List Step) (r : Report) :
    (steps.foldl (take place) r).errors = r.errors ++ steps.filterMap Step.failure? := by
  refine foldl_take_eq_append ?_ steps r
  intro r step
  cases step <;> simp [take, Step.failure?]

theorem results_foldl_take (place : Path → Path) (steps : List Step) (r : Report) :
    (steps.foldl (take place) r).results =
      (steps.filterMap Step.verdicts?).foldl (fun m e => m.insert e.1 e.2) r.results := by
  induction steps generalizing r with
  | nil => rfl
  | cons step rest ih =>
    rw [List.foldl_cons, ih]
    cases step <;> simp [take, List.filterMap_cons, Step.verdicts?]

/-- **The errors of a report** are those of its steps, in the order of their configs. -/
theorem errors_ofSteps (place : Path → Path) (steps : List Step) :
    (ofSteps place steps).errors = sortOn FailedConfig.config (steps.filterMap Step.failure?) := by
  rw [ofSteps, finish, errors_foldl_take]
  rfl

theorem errors_ofSteps_perm (place : Path → Path) (steps : List Step) :
    (ofSteps place steps).errors.Perm (steps.filterMap Step.failure?) :=
  errors_ofSteps place steps ▸ sortOn_perm _ _

/-- **The verdicts of a report** are those of its steps, the last one of a config counting. -/
theorem results_ofSteps (place : Path → Path) (steps : List Step) :
    (ofSteps place steps).results = OrderedMap.ofList (steps.filterMap Step.verdicts?) :=
  results_foldl_take place steps empty

theorem isEmpty_errors_ofSteps (place : Path → Path) (steps : List Step) :
    (ofSteps place steps).errors.isEmpty = true ↔ ∀ step ∈ steps, step.failure? = none := by
  have hperm := errors_ofSteps_perm place steps
  rw [List.isEmpty_iff, ← List.filterMap_eq_nil_iff]
  constructor
  · intro h
    rw [h] at hperm
    exact hperm.nil_eq.symm
  · intro h
    rw [h] at hperm
    exact hperm.eq_nil

/-- The config that a step adds to those without targets. -/
def Step.untested? : Step → Option Path
  | .missingTests config => some config
  | _ => none

theorem missingTests_foldl_take (place : Path → Path) (steps : List Step) (r : Report) :
    (steps.foldl (take place) r).missingTests =
      r.missingTests ++ (steps.filterMap Step.untested?).map Path.display := by
  rw [List.map_filterMap]
  refine foldl_take_eq_append ?_ steps r
  intro r step
  cases step <;> simp [take, Step.untested?]

/-- **The configs without targets** are those of the steps that say so, each as often as they do. -/
theorem missingTests_ofSteps (place : Path → Path) (steps : List Step) :
    (ofSteps place steps).missingTests =
      sortOn id ((steps.filterMap Step.untested?).map Path.display) := by
  rw [ofSteps, finish, missingTests_foldl_take]
  rfl

theorem missingTests_ofSteps_perm (place : Path → Path) (steps : List Step) :
    (ofSteps place steps).missingTests.Perm ((steps.filterMap Step.untested?).map Path.display) :=
  missingTests_ofSteps place steps ▸ sortOn_perm _ _

/-- The config that a step adds to those without a golden file. -/
def Step.ungolden? : Step → Option Path
  | .missingGolden config => some config
  | _ => none

theorem missingGolden_foldl_take (place : Path → Path) (steps : List Step) (r : Report) :
    (steps.foldl (take place) r).missingGolden =
      r.missingGolden ++ (steps.filterMap Step.ungolden?).map Path.display := by
  rw [List.map_filterMap]
  refine foldl_take_eq_append ?_ steps r
  intro r step
  cases step <;> simp [take, Step.ungolden?]

theorem missingGolden_ofSteps (place : Path → Path) (steps : List Step) :
    (ofSteps place steps).missingGolden =
      sortOn id ((steps.filterMap Step.ungolden?).map Path.display) := by
  rw [ofSteps, finish, missingGolden_foldl_take]
  rfl

theorem anyFailure_iff {r : Report} :
    r.anyFailure = true ↔ ∃ verdicts ∈ r.results.values, ¬ verdicts.AllPass := by
  simp only [anyFailure, checks, List.any_flatMap, List.any_eq_true]
  refine exists_congr fun verdicts => and_congr_right fun _ => ?_
  simp only [ConfigVerdict.AllPass, OrderedMap.values, List.forall_mem_map, not_forall,
    Bool.not_eq_true', Bool.not_eq_true, exists_prop]

/-- Verdicts that fail are those of some step. -/
theorem exists_failing_of_anyFailure {place : Path → Path} {steps : List Step}
    (h : (ofSteps place steps).anyFailure = true) :
    ∃ e ∈ steps.filterMap Step.verdicts?, ¬ e.2.AllPass := by
  obtain ⟨verdicts, hverdicts, hfail⟩ := anyFailure_iff.1 h
  rw [results_ofSteps] at hverdicts
  obtain ⟨e, he, rfl⟩ := OrderedMap.exists_mem_of_mem_values_ofList hverdicts
  exact ⟨e, he, hfail⟩

/-- **Some test failed** if and only if the verdicts of some step do not all pass, provided that no two
steps are about configs with the same text. -/
theorem anyFailure_ofSteps_iff {place : Path → Path} {steps : List Step}
    (hsteps : OrderedMap.DistinctKeys (steps.filterMap Step.verdicts?)) :
    (ofSteps place steps).anyFailure = true ↔
      ∃ e ∈ steps.filterMap Step.verdicts?, ¬ e.2.AllPass := by
  have hperm := OrderedMap.entries_ofList_perm hsteps
  simp only [anyFailure_iff, results_ofSteps, OrderedMap.values, List.mem_map, exists_exists_and_eq_and,
    hperm.mem_iff]

/-- The exit code depends on whether there are errors and whether a test failed, and on nothing else. -/
theorem exitCode_congr {r r' : Report} (herrors : r.errors.isEmpty = r'.errors.isEmpty)
    (hfailure : r.anyFailure = r'.anyFailure) (strict : Bool) :
    r.exitCode strict = r'.exitCode strict := by
  rw [exitCode, exitCode, herrors, hfailure]

theorem toNat_exitCode_eq_zero_iff {r : Report} {strict : Bool} :
    (r.exitCode strict).toNat = 0 ↔
      (strict = true → r.errors.isEmpty = true) ∧ r.anyFailure = false := by
  rw [exitCode]
  cases strict <;> cases r.errors.isEmpty <;> cases r.anyFailure <;> simp [ExitCode.toNat]

theorem toNat_exitCode_eq_one_iff {r : Report} {strict : Bool} :
    (r.exitCode strict).toNat = 1 ↔
      (strict = true → r.errors.isEmpty = true) ∧ r.anyFailure = true := by
  rw [exitCode]
  cases strict <;> cases r.errors.isEmpty <;> cases r.anyFailure <;> simp [ExitCode.toNat]

end RuleAudit.Report
