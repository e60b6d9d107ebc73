import Mathlib.Data.List.Forall2
import RuleAudit.Proofs.Ordered.Lookup
import RuleAudit.Proofs.Report.Gathering

/-!
# Reports built one after the other

Each report holds the steps since the one before it and nothing else. Its lists are those of the steps in the
order of the configs, of the verdicts of a config the last ones count, and a target passes if all its fix tests
do, in whatever order they come.
-/

namespace RuleAudit.Report

/-! ## From one report to the next -/

/-- The steps of each report that some actions complete; `gathered` is what came before them. -/
def segments (gathered : List Step) : List Action → List (List Step)
  | [] => []
  | .take step :: rest => segments (gathered ++ [step]) rest
  | .build :: rest => gathered :: segments [] rest

/-- The steps after the last report. -/
def pending (gathered : List Step) : List Action → List Step
  | [] => gathered
  | .take step :: rest => pending (gathered ++ [step]) rest
  | .build :: rest => pending [] rest

/-- Some steps and the word that their report is complete. -/
def reporting (steps : List Step) : List Action := steps.map .take ++ [.build]

/-- The actions are those of one report after the other, and what is left over. -/
theorem flatMap_segments (gathered : List Step) (actions : List Action) :
    (segments gathered actions).flatMap reporting ++ (pending gathered actions).map .take =
      gathered.map .take ++ actions := by
  induction actions generalizing gathered with
  | nil => rw [segments, pending, List.flatMap_nil, List.nil_append, List.append_nil]
  | cons action rest ih =>
    cases action with
    | take step => rw [segments, pending, ih, List.map_append, List.append_assoc]; rfl
    | build =>
      rw [segments, pending, List.flatMap_cons, List.append_assoc, ih, reporting,
        List.append_assoc]
      rfl

/-- **Each report is that of its own steps.** -/
theorem built_foldl_take (place : Path → Path) (gathered : List Step) (actions : List Action) :
    built place (gathered.foldl (take place) empty) actions =
      (segments gathered actions).map (ofSteps place) := by
  induction actions generalizing gathered with
  | nil => rfl
  | cons action rest ih =>
    cases action with
    | take step =>
      have hmore : (gathered.foldl (take place) empty).take place step =
          (gathered ++ [step]).foldl (take place) empty := by
        rw [List.foldl_append, List.foldl_cons, List.foldl_nil]
      rw [built, segments, hmore, ih]
    | build =>
      rw [built, segments, List.map_cons, ← ih []]
      rfl

/-! ## Verdicts and fix tests -/

/-- The verdicts that some steps add for one config, by its text. -/
def verdictsOf (config : Text) (steps : List Step) : List ConfigVerdict :=
  ((steps.filterMap Step.verdicts?).filter fun e => e.1 = config).map Prod.snd

theorem get?_results_ofSteps (place : Path → Path) (steps : List Step) (config : Text) :
    (ofSteps place steps).results.get? config = (verdictsOf config steps).getLast? := by
  have hspelled : (fun e : Text × ConfigVerdict => compare config e.1 == .eq) =
      fun e => decide (e.1 = config) := by
    funext e
    rw [Bool.eq_iff_iff, beq_iff_eq, Std.LawfulEqCmp.compare_eq_iff_eq, decide_eq_true_iff]
    exact eq_comm
  rw [results_ofSteps, OrderedMap.get?_ofList, hspelled, verdictsOf]

/-- The fix test that a step adds. -/
def Step.outcome? : Step → Option GoldenVerdict
  | .fix outcome => some outcome
  | _ => none

theorem Step.outcome?_eq_some_iff {step : Step} {outcome : GoldenVerdict} :
    step.outcome? = some outcome ↔ step = .fix outcome := by
  cases step <;> simp [outcome?]

/-- The fix tests of some steps whose target is one file, by the text of its place. -/
def outcomesOf (place : Path → Path) (file : Text) (steps : List Step) : List GoldenVerdict :=
  (steps.filterMap Step.outcome?).filter fun o => (place o.case.target).display = file

theorem mem_outcomesOf {place : Path → Path} {file : Text} {steps : List Step} {o : GoldenVerdict} :
    o ∈ outcomesOf place file steps ↔
      Step.fix o ∈ steps ∧ (place o.case.target).display = file := by
  simp [outcomesOf, Step.outcome?_eq_some_iff]

theorem get?_fixes_take (place : Path → Path) (r : Report) (o : GoldenVerdict) (file : Text) :
    (r.take place (.fix o)).fixes.get? file =
      if (place o.case.target).display = file then some ((r.fixes.get? file).getD true && o.passed)
      else r.fixes.get? file := by
  rw [take, OrderedMap.get?_alter]
  by_cases hfile : (place o.case.target).display = file
  · rw [hfile, if_pos Std.ReflCmp.compare_self, if_pos rfl]
  · rw [if_neg hfile, if_neg fun heq => hfile (Std.LawfulEqCmp.eq_of_compare heq).symm]

/-- The fix tests of a target are taken together: it passes as long as all of them do. -/
theorem get?_fixes_foldl_take (place : Path → Path) (steps : List Step) (r : Report)
    (file : Text) : (steps.foldl (take place) r).fixes.get? file =
      if outcomesOf place file steps = [] then r.fixes.get? file
      else some ((r.fixes.get? file).getD true &&
        (outcomesOf place file steps).all GoldenVerdict.passed) := by
  induction steps generalizing r with
  | nil => rfl
  | cons step rest ih =>
    rw [List.foldl_cons, ih]
    cases step with
    | fix o =>
      rw [get?_fixes_take]
      by_cases hfile : (place o.case.target).display = file
      · have hcons : outcomesOf place file (.fix o :: rest) = o :: outcomesOf place file rest := by
          simp [outcomesOf, Step.outcome?, hfile]
        rw [hcons, if_neg (List.cons_ne_nil _ _), if_pos hfile, List.all_cons]
        split
        next hnil => rw [hnil, List.all_nil, Bool.and_true]
        next => rw [Option.getD_some, Bool.and_assoc]
      · have hcons : outcomesOf place file (.fix o :: rest) = outcomesOf place file rest := by
          simp [outcomesOf, Step.outcome?, hfile]
        rw [hcons, if_neg hfile]
    | _ => rfl

theorem get?_fixes_ofSteps (place : Path → Path) (steps : List Step) (file : Text) :
    (ofSteps place steps).fixes.get? file =
      if outcomesOf place file steps = [] then none
      else some ((outcomesOf place file steps).all GoldenVerdict.passed) := by
  rw [ofSteps, finish, get?_fixes_foldl_take]
  simp [empty]

/-! ## What a report holds -/

/-- A report holds what some steps add. -/
structure Gathers (place : Path → Path) (steps : List Step) (r : Report) : Prop where
  missingTests : StablySorted id ((steps.filterMap Step.untested?).map Path.display) r.missingTests
  missingGolden :
    StablySorted id ((steps.filterMap Step.ungolden?).map Path.display) r.missingGolden
  errors : StablySorted FailedConfig.config (steps.filterMap Step.failure?) r.errors
  /-- Of the verdicts of a config the last ones count. -/
  results : ∀ config, r.results.get? config = (verdictsOf config steps).getLast?
  fixes_nodup : r.fixes.keys.Nodup
  mem_fixes : ∀ file, file ∈ r.fixes.keys ↔
    ∃ o, Step.fix o ∈ steps ∧ (place o.case.target).display = file
  fixes_passed : ∀ file passed, r.fixes.get? file = some passed →
    (passed = true ↔
      ∀ o, Step.fix o ∈ steps → (place o.case.target).display = file → o.passed = true)

/-- **The report of some steps** holds what they add. -/
theorem ofSteps_gathers (place : Path → Path) (steps : List Step) :
    Gathers place steps (ofSteps place steps) where
  missingTests := missingTests_ofSteps place steps ▸ sortOn_stablySorted id _
  missingGolden := missingGolden_ofSteps place steps ▸ sortOn_stablySorted id _
  errors := errors_ofSteps place steps ▸ sortOn_stablySorted FailedConfig.config _
  results := get?_results_ofSteps place steps
  fixes_nodup := OrderedMap.nodup_keys _
  mem_fixes file := by
    rw [OrderedMap.mem_keys_iff, get?_fixes_ofSteps]
    simp only [← mem_outcomesOf]
    split
    next hnil => simp [hnil]
    next hne => simpa using List.exists_mem_of_ne_nil _ hne
  fixes_passed file passed h := by
    rw [get?_fixes_ofSteps] at h
    split at h
    next => cases h
    next =>
      cases h
      simp only [List.all_eq_true, mem_outcomesOf, and_imp]

/-! ## The order of the fix tests -/

/-- The same steps in the same order, but for the fix tests, which may stand anywhere. -/
structure Reordered (steps steps' : List Step) : Prop where
  others : steps.filter (·.outcome?.isNone) = steps'.filter (·.outcome?.isNone)
  outcomes : (steps.filterMap Step.outcome?).Perm (steps'.filterMap Step.outcome?)

/-- What is no fix test adds the same. -/
theorem Reordered.filterMap_eq {α : Type} {steps steps' : List Step} (h : Reordered steps steps')
    {added? : Step → Option α} (hfix : ∀ o, added? (.fix o) = none) :
    steps.filterMap added? = steps'.filterMap added? := by
  have hothers (steps : List Step) :
      steps.filterMap added? = (steps.filter (·.outcome?.isNone)).filterMap added? := by
    rw [List.filterMap_filter]
    refine List.filterMap_congr fun step _ => ?_
    cases step with
    | fix o => simp [Step.outcome?, hfix]
    | _ => rfl
  rw [hothers steps, hothers steps', h.others]

/-- **The order of the fix tests** makes no difference to a report. -/
theorem ofSteps_eq_of_reordered {place : Path → Path} {steps steps' : List Step}
    (h : Reordered steps steps') : ofSteps place steps = ofSteps place steps' := by
  have hmissingTests : (ofSteps place steps).missingTests = (ofSteps place steps').missingTests := by
    rw [missingTests_ofSteps, missingTests_ofSteps, h.filterMap_eq fun _ => rfl]
  have hmissingGolden :
      (ofSteps place steps).missingGolden = (ofSteps place steps').missingGolden := by
    rw [missingGolden_ofSteps, missingGolden_ofSteps, h.filterMap_eq fun _ => rfl]
  have herrors : (ofSteps place steps).errors = (ofSteps place steps').errors := by
    rw [errors_ofSteps, errors_ofSteps, h.filterMap_eq fun _ => rfl]
  have hresults : (ofSteps place steps).results = (ofSteps place steps').results := by
    rw [results_ofSteps, results_ofSteps, h.filterMap_eq fun _ => rfl]
  have hfixes : (ofSteps place steps).fixes = (ofSteps place steps').fixes := by
    refine OrderedMap.ext_get? fun file => ?_
    have hperm : (outcomesOf place file steps).Perm (outcomesOf place file steps') :=
      h.outcomes.filter _
    have hnil : outcomesOf place file steps = [] ↔ outcomesOf place file steps' = [] := by
      rw [← List.length_eq_zero_iff, hperm.length_eq, List.length_eq_zero_iff]
    rw [get?_fixes_ofSteps, get?_fixes_ofSteps, hperm.all_eq]
    simp only [hnil]
  exact Report.ext hmissingTests hmissingGolden herrors hresults hfixes

/-! ## All reports -/

/-- **What any run of a builder gives**: one report for each run of steps up to the next report, which holds
what these steps add and depends on nothing else, not even on the order of the fix tests among them. -/
theorem built_gathers_segments (place : Path → Path) (actions : List Action) :
    (segments [] actions).flatMap reporting ++ (pending [] actions).map .take = actions ∧
      built place empty actions = (segments [] actions).map (ofSteps place) ∧
      List.Forall₂ (Gathers place) (segments [] actions) (built place empty actions) ∧
      ∀ actions', List.Forall₂ Reordered (segments [] actions) (segments [] actions') →
        built place empty actions' = built place empty actions := by
  have hbuilt (actions : List Action) :
      built place empty actions = (segments [] actions).map (ofSteps place) :=
    built_foldl_take place [] actions
  refine ⟨flatMap_segments [] actions, hbuilt actions, ?_, fun actions' h => ?_⟩
  · rw [hbuilt, List.forall₂_map_right_iff, List.forall₂_same]
    exact fun steps _ => ofSteps_gathers place steps
  · rw [hbuilt, hbuilt, eq_comm, ← List.forall₂_eq_eq_eq, List.forall₂_map_left_iff,
      List.forall₂_map_right_iff]
    exact h.imp fun _ _ => ofSteps_eq_of_reordered

/-- A fix test of a target that others may share. -/
private def sharedTarget (diff : List Text) : GoldenVerdict :=
  ⟨⟨⟨"eqeq.yaml".toList⟩, ⟨"eqeq.py".toList⟩, ⟨"eqeq.fixed.py".toList⟩⟩, diff⟩

theorem built_sharedTarget :
    List.Forall₂ Reordered
        (segments [] [.take (.fix (sharedTarget [['-']])), .take (.fix (sharedTarget [])), .build])
        (segments [] [.take (.fix (sharedTarget [])), .take (.fix (sharedTarget [['-']])), .build]) ∧
      built id empty [.take (.fix (sharedTarget [])), .take (.fix (sharedTarget [['-']])), .build] =
        built id empty
          [.take (.fix (sharedTarget [['-']])), .take (.fix (sharedTarget [])), .build] :=
  have hreordered : List.Forall₂ Reordered
      (segments [] [.take (.fix (sharedTarget [['-']])), .take (.fix (sharedTarget [])), .build])
      (segments [] [.take (.fix (sharedTarget [])), .take (.fix (sharedTarget [['-']])), .build]) :=
    .cons ⟨rfl, .swap _ _ _⟩ .nil
  ⟨hreordered, (built_gathers_segments id _).2.2.2 _ hreordered⟩

end RuleAudit.Report
