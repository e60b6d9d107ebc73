import RuleAudit.Proofs.Files.Places
import RuleAudit.Proofs.Scoring.Passing
import RuleAudit.Scoring.Verdict

/-!
# Order and repetition of findings

Two lists with the same findings are compared alike, whatever their order and however often a finding
is repeated: with the same mismatches, or with the same comparisons of the same rules in the same files.
What the order can change is the text of a path. A file that is found is named by its own path, but the
path of a file that is not there is taken as it is written, and of the ways in which the findings write
it the first one is kept. That matters for the comparisons where another file has one of these texts.
-/

namespace RuleAudit

/-- All findings in one file write its path alike; `place` gives the file that a path names. -/
def SpelledAlike (place : Path → Path) (findings : List Finding) : Prop :=
  ∀ x ∈ findings, ∀ y ∈ findings, (place x.path).same (place y.path) = true →
    place x.path = place y.path

/-! ## What is collected -/

namespace Reported

variable {place : Path → Path} {findings findings' : List Finding}

/-- The lines that are collected for each rule of a file, from the findings in it. -/
theorem rulesOf_ofFindings_of_same (h : ∀ x, x ∈ findings ↔ x ∈ findings') (file : Path) :
    (ofFindings place findings).rulesOf file = (ofFindings place findings').rulesOf file := by
  have hreports : ∀ rule n, Reports place findings file rule n ↔ Reports place findings' file rule n := by
    simp only [Reports, h, implies_true]
  refine OrderedMap.ext_get? fun rule => ?_
  have hsome : (((ofFindings place findings).rulesOf file).get? rule).isSome = true ↔
      (((ofFindings place findings').rulesOf file).get? rule).isSome = true := by
    simp only [← mem_idsOf, mem_idsOf_ofFindings, hreports]
  have hlines : ∀ n, n ∈ (ofFindings place findings).linesOf file rule ↔
      n ∈ (ofFindings place findings').linesOf file rule := by
    simp only [mem_linesOf_ofFindings, hreports, implies_true]
  simp only [linesOf] at hlines
  cases hget : ((ofFindings place findings).rulesOf file).get? rule <;>
    cases hget' : ((ofFindings place findings').rulesOf file).get? rule
  · rfl
  · simp [hget, hget'] at hsome
  · simp [hget, hget'] at hsome
  · exact congrArg some (OrderedSet.ext_mem (by simpa [hget, hget'] using hlines))

/-- **What is collected for a file** depends on which findings there are, not on their order. -/
theorem get?_ofFindings_of_same (h : ∀ x, x ∈ findings ↔ x ∈ findings') (file : Path) :
    (ofFindings place findings).get? file = (ofFindings place findings').get? file := by
  have hrules : (ofFindings place findings).rulesOf file = (ofFindings place findings').rulesOf file :=
    rulesOf_ofFindings_of_same h file
  have hsome : ((ofFindings place findings).get? file).isSome = true ↔
      ((ofFindings place findings').get? file).isSome = true := by
    simp only [isSome_get?_ofFindings, h]
  simp only [rulesOf] at hrules
  cases hget : (ofFindings place findings).get? file <;>
    cases hget' : (ofFindings place findings').get? file
  · rfl
  · simp [hget, hget'] at hsome
  · simp [hget, hget'] at hsome
  · simpa [hget, hget'] using hrules

theorem mem_keys_ofFindings (hspelled : SpelledAlike place findings) {file : Path} :
    file ∈ (ofFindings place findings).keys ↔ ∃ x ∈ findings, place x.path = file := by
  refine ⟨exists_of_mem_keys, ?_⟩
  rintro ⟨x, hx, rfl⟩
  have hsome := isSome_get?_ofFindings.2 ⟨x, hx, Path.same_self (place x.path)⟩
  obtain ⟨file, hkey, hsame⟩ := OrderedMap.exists_mem_keys_iff.2 hsome
  obtain ⟨y, hy, rfl⟩ := exists_of_mem_keys hkey
  rwa [hspelled x hx y hy (Path.compare_eq_iff.1 hsame)]

/-- Findings that write their paths alike leave no trace of their order. -/
theorem ofFindings_eq_of_same (hspelled : SpelledAlike place findings)
    (h : ∀ x, x ∈ findings ↔ x ∈ findings') : ofFindings place findings = ofFindings place findings' := by
  have hspelled' : SpelledAlike place findings' := by
    simpa only [SpelledAlike, h] using hspelled
  refine OrderedMap.ext_keys (fun file => ?_) (get?_ofFindings_of_same h)
  simp only [mem_keys_ofFindings hspelled, mem_keys_ofFindings hspelled', h]

end Reported

/-! ## What comes out -/

section Outcome

variable {reported reported' : Reported} {annotated : Annotated}

/-- The mismatches depend on what is reported for each file. -/
theorem mismatches_congr (h : ∀ file, reported.get? file = reported'.get? file) :
    mismatches reported annotated = mismatches reported' annotated := by
  have hempty : reported.isEmpty = reported'.isEmpty := by
    rw [Bool.eq_iff_iff, OrderedMap.isEmpty_iff, OrderedMap.isEmpty_iff]
    simp only [h]
  have hone : mismatchOf reported = mismatchOf reported' := by
    funext file notes
    have hids : reported.idsOf file = reported'.idsOf file := by
      rw [Reported.idsOf, Reported.rulesOf, h, Reported.idsOf, Reported.rulesOf]
    rw [mismatchOf, mismatchOf, hids]
  rw [mismatches, mismatches, hempty, hone]

theorem comparedRules_congr_reported (h : ∀ file, reported.get? file = reported'.get? file)
    (notes : Annotations) (file : Path) :
    comparedRules reported notes file = comparedRules reported' notes file := by
  rw [comparedRules, comparedRules, Reported.idsOf, Reported.idsOf, Reported.rulesOf, Reported.rulesOf, h]

/-- The comparisons of a rule depend on what is reported for each file, as long as files that share a text keep
theirs. -/
theorem Has.of_kept (h : ∀ file, reported.get? file = reported'.get? file) {rule : Text} {file : Path}
    (hkept : KeepsTexts (Compared reported' annotated rule) (Compared reported annotated rule))
    {m : LineComparison} (hm : (compareLines reported annotated).Has rule file m) :
    (compareLines reported' annotated).Has rule file m := by
  obtain ⟨shown, hshown, htext, rfl⟩ := RuleComparisons.has_compareLines.1 hm
  have hrule : rule ∈ (comparedRules reported' (annotated.notesOf shown) shown).elems := by
    rw [← comparedRules_congr_reported h]
    exact hshown.compared.2
  obtain ⟨shown', hshown', hsame⟩ := RuleComparisons.exists_compared hrule
  have hlast : Shown reported' annotated rule shown' := by
    refine shown_of_kept hkept (fun file hrule => ?_) hshown' hsame hshown
    rwa [comparedRules_congr_reported h]
  refine RuleComparisons.has_compareLines.2
    ⟨shown', hlast, Path.same_trans (Path.same_viaText hsame) htext, ?_⟩
  rw [RuleComparisons.lineComparison_notes_congr hsame, lineComparison, lineComparison, Reported.linesOf,
    Reported.linesOf, Reported.rulesOf, Reported.rulesOf, h]

/-- Every rule of a table has a comparison in some file. -/
def RuleComparisons.Filled (table : RuleComparisons) : Prop :=
  ∀ rule ∈ table.keys, ∃ key m, table.at? rule key = some m

theorem RuleComparisons.Filled.addComparison {table : RuleComparisons} (h : table.Filled)
    (rule key : Text) (m : LineComparison) : (addComparison table rule key m).Filled := by
  intro rule' hrule'
  by_cases hrule : rule' = rule
  · exact ⟨key, m, by rw [at?_addComparison, if_pos ⟨rfl, hrule⟩]⟩
  · rw [OrderedMap.mem_keys_iff, RuleAudit.addComparison, OrderedMap.get?_alter,
      if_neg (by simpa using hrule), ← OrderedMap.mem_keys_iff] at hrule'
    obtain ⟨key', m', hat⟩ := h rule' hrule'
    exact ⟨key', m', by rwa [at?_addComparison, if_neg fun hboth => hrule hboth.2]⟩

theorem RuleComparisons.filled_compareLines (reported : Reported) (annotated : Annotated) :
    (compareLines reported annotated).Filled := by
  have hfile : ∀ (table : RuleComparisons) (file : Path), table.Filled →
      (compareFile reported annotated table file).Filled := fun table file h =>
    List.foldlRecOn _ _ h fun _ htable rule _ => htable.addComparison rule _ _
  refine List.foldlRecOn _ _ ?_ fun table htable file _ => hfile table file htable
  exact fun rule hrule => absurd hrule List.not_mem_nil

theorem RuleComparisons.mem_keys_compareLines {rule : Text} :
    rule ∈ (compareLines reported annotated).keys ↔
      ∃ file, rule ∈ (comparedRules reported (annotated.notesOf file) file).elems := by
  constructor
  · intro hrule
    obtain ⟨key, m, hat⟩ := filled_compareLines reported annotated rule hrule
    obtain ⟨file, hshown, -⟩ := at?_eq_some_iff.1 hat
    exact ⟨file, hshown.compared.2⟩
  · rintro ⟨file, hrule⟩
    obtain ⟨m, key, -, hat⟩ := exists_has_compareLines hrule
    rw [OrderedMap.mem_keys_iff]
    rw [at?] at hat
    cases hget : (compareLines reported annotated).get? rule with
    | none => simp [hget] at hat
    | some files => rfl

/-- The rules of a table depend on what is reported for each file. -/
theorem keys_compareLines_congr (h : ∀ file, reported.get? file = reported'.get? file) :
    (compareLines reported annotated).keys = (compareLines reported' annotated).keys := by
  have hascending : ∀ table : RuleComparisons, table.keys.Pairwise Before := fun table =>
    List.pairwise_map.2 table.sorted
  refine eq_of_ascending (hascending _) (hascending _) fun rule => ?_
  simp only [RuleComparisons.mem_keys_compareLines, comparedRules_congr_reported h]

end Outcome

/-- The same findings give the same comparisons of a rule in a file, if the texts that files share are steady. -/
theorem has_of_same_findings {place : Path → Path} {annotated : Annotated} {findings findings' : List Finding}
    (h : ∀ x, x ∈ findings ↔ x ∈ findings') (hids : IdsMatch place findings annotated)
    (hids' : IdsMatch place findings' annotated) (hsteady : SteadyTexts place findings) {rule : Text}
    {file : Path} {m : LineComparison}
    (hm : (compareLines (.ofFindings place findings) annotated).Has rule file m) :
    (compareLines (.ofFindings place findings') annotated).Has rule file m := by
  by_cases hne : findings' = []
  · have hnil : findings = [] := List.eq_nil_iff_forall_not_mem.2 fun x hx => by simp [h, hne] at hx
    rwa [hne, ← hnil]
  · exact Has.of_kept (Reported.get?_ofFindings_of_same h)
      (keepsTexts_of_steadyTexts hids' hids hne (fun x => (h x).2) hsteady rule) hm

/-- **Findings in files that are found write their paths alike**: each path leads to the path of the
place where the file stands. -/
theorem spelledAlike_of_found {w : World} {findings : List Finding}
    (h : ∀ x ∈ findings, w.has x.path = true) : SpelledAlike w.normalize findings := by
  have hplace : ∀ x ∈ findings, ∃ place : Place, w.normalize x.path = place.path := by
    intro x hx
    have hhas := h x hx
    cases hloc : w.locate x.path with
    | error e => simp [World.has, hloc, Except.isOk, Except.toBool] at hhas
    | ok found => exact ⟨found.1, by rw [World.normalize, hloc]⟩
  intro x hx y hy hsame
  obtain ⟨place, hx'⟩ := hplace x hx
  obtain ⟨place', hy'⟩ := hplace y hy
  rw [hx', hy'] at hsame ⊢
  rw [Place.eq_of_same_path hsame]

/-- **Lists with the same findings** are refused alike, or compared alike: with the same rules, and with
the same comparison of a rule in a file unless files that share a text are written in several ways. Where the
paths are written alike, as they are when all files are found, there is no difference at all. -/
theorem outcome_of_same_findings (w : World) (annotated : Annotated) {findings findings' : List Finding}
    (h : ∀ x, x ∈ findings ↔ x ∈ findings') :
    (∀ ms, compareFindings (.ofFindings w.normalize findings) annotated = .error ms ↔
      compareFindings (.ofFindings w.normalize findings') annotated = .error ms) ∧
    (∀ table, compareFindings (.ofFindings w.normalize findings) annotated = .ok table →
      ∃ table', compareFindings (.ofFindings w.normalize findings') annotated = .ok table' ∧
        table.keys = table'.keys ∧ (SteadyTexts w.normalize findings →
          ∀ rule file m, table.Has rule file m ↔ table'.Has rule file m)) ∧
    (SpelledAlike w.normalize findings →
      compareFindings (.ofFindings w.normalize findings) annotated =
        compareFindings (.ofFindings w.normalize findings') annotated) ∧
    ((∀ x ∈ findings, w.has x.path = true) → SpelledAlike w.normalize findings) := by
  have hget : ∀ file, OrderedMap.get? (Reported.ofFindings w.normalize findings) file =
      OrderedMap.get? (Reported.ofFindings w.normalize findings') file :=
    Reported.get?_ofFindings_of_same h
  have hrefused : ∀ ms, compareFindings (.ofFindings w.normalize findings) annotated = .error ms ↔
      compareFindings (.ofFindings w.normalize findings') annotated = .error ms := by
    intro ms
    rw [compareFindings_eq_error_iff, compareFindings_eq_error_iff, mismatches_congr hget]
  refine ⟨hrefused, ?_, ?_, spelledAlike_of_found⟩
  · intro table htable
    have hids := compareFindings_ok_iff.1 ⟨table, htable⟩
    obtain rfl := eq_compareLines_of_ok htable
    cases htable' : compareFindings (.ofFindings w.normalize findings') annotated with
    | error ms =>
      rw [(hrefused ms).2 htable'] at htable
      cases htable
    | ok table' =>
      have hids' := compareFindings_ok_iff.1 ⟨table', htable'⟩
      obtain rfl := eq_compareLines_of_ok htable'
      refine ⟨_, rfl, keys_compareLines_congr hget, fun hsteady rule file m => ⟨?_, ?_⟩⟩
      · exact has_of_same_findings h hids hids' hsteady
      · refine has_of_same_findings (fun x => (h x).symm) hids' hids ?_
        simpa only [SteadyTexts, h] using hsteady
  · intro hspelled
    rw [Reported.ofFindings_eq_of_same hspelled h]

/-- Findings in a file that is there, in another order and with one of them repeated. -/
theorem outcome_of_swapped_findings :
    let w : World :=
      { tree := Tree.ofTexts [(["t".toList], .directory), (["a.py".toList, "t".toList], .file [] false)]
        home := []
        scratch := [] }
    let annotated : Annotated :=
      OrderedMap.ofList [(⟨"/t/a.py".toList⟩, Annotations.ofText "# ruleid: r\nx".toList)]
    let first : Finding := ⟨"r".toList, ⟨"/t//a.py".toList⟩, 1⟩
    let second : Finding := ⟨"r".toList, ⟨"/t/a.py".toList⟩, 2⟩
    (∀ x, x ∈ [first, second] ↔ x ∈ [second, first, second]) ∧
      compareFindings (.ofFindings w.normalize [first, second]) annotated =
        compareFindings (.ofFindings w.normalize [second, first, second]) annotated := by
  intro w annotated first second
  have hsame : ∀ x, x ∈ [first, second] ↔ x ∈ [second, first, second] := by
    intro x
    simp only [List.mem_cons, List.not_mem_nil, or_false]
    tauto
  obtain ⟨-, -, hequal, hspelled⟩ := outcome_of_same_findings w annotated hsame
  exact ⟨hsame, hequal (hspelled (by decide))⟩

/-- **The first finding spells the path** of a file that is not there. The comparison fails in both orders,
but the target passes in one of them: its path is not the one that the comparison is kept under. -/
theorem spelling_of_first_finding :
    let w : World := { tree := .empty, home := [], scratch := [] }
    let annotated : Annotated :=
      OrderedMap.ofList [(⟨"/t/a.py".toList⟩, Annotations.ofText "# ruleid: r\nx".toList)]
    let first : Finding := ⟨"r".toList, ⟨"/t//a.py".toList⟩, 1⟩
    let second : Finding := ⟨"r".toList, ⟨"/t/a.py".toList⟩, 2⟩
    ∃ table table',
      compareFindings (.ofFindings w.normalize [first, second]) annotated = .ok table ∧
      compareFindings (.ofFindings w.normalize [second, first]) annotated = .ok table' ∧
      table.at? "r".toList "/t/a.py".toList = none ∧
      table'.at? "r".toList "/t/a.py".toList = some ⟨[2], [1, 2]⟩ ∧
      passingTargets w.normalize (.ofComparisons table) [⟨"/t/a.py".toList⟩] =
        .ofList [⟨"/t/a.py".toList⟩] ∧
      passingTargets w.normalize (.ofComparisons table') [⟨"/t/a.py".toList⟩] = .empty := by
  intro w annotated first second
  refine ⟨compareLines (.ofFindings w.normalize [first, second]) annotated,
    compareLines (.ofFindings w.normalize [second, first]) annotated, ?_⟩
  decide +kernel

end RuleAudit
