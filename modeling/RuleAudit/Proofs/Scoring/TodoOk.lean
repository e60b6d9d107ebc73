import RuleAudit.Proofs.Scoring.Fixtures
import RuleAudit.Proofs.Scoring.Passing

/-!
# Findings that `todook` announces

A finding on a line that `todook` announces for its rule changes no verdict. It does count when the
ids of the fixture are checked against those reported for it: `todook` does not make a fixture
exercise a rule, so the fixture has to exercise it by some other marker.
-/

namespace RuleAudit

/-- The check of the ids lets one more finding through. If there are findings already, its fixture
exercises its rule or no rule at all. If it is the first one, the check begins to apply with it, and
no fixture may exercise anything but its rule in its file. -/
def IdAccepted (place : Path → Path) (findings : List Finding) (annotated : Annotated)
    (x : Finding) : Prop :=
  (findings ≠ [] ∧ ((∀ rule, rule ∉ (annotated.notesOf (place x.path)).tested.elems) ∨
      x.rule ∈ (annotated.notesOf (place x.path)).tested.elems)) ∨
    (findings = [] ∧ ∀ file, ∀ rule ∈ (annotated.notesOf file).tested.elems,
      (place x.path).same file = true ∧ x.rule = rule)

section OneMore

variable {place : Path → Path} {findings findings' : List Finding} {annotated : Annotated}
  {x : Finding}

/-- One more finding on a suppressed line keeps the lines matching. -/
theorem linesMatchIn_one_more (hmem : ∀ y, y ∈ findings' ↔ y = x ∨ y ∈ findings)
    (hsup : x.line ∈ suppressedLines (annotated.notesOf (place x.path)) x.rule) {file : Path} {rule : Text}
    (hlines : LinesMatchIn place findings annotated file rule) :
    LinesMatchIn place findings' annotated file rule := by
  intro n hn
  have hother : ¬ ((place x.path).same file = true ∧ x.rule = rule ∧ x.line = n) := by
    rintro ⟨hfile, rfl, rfl⟩
    rw [Annotated.notesOf_congr hfile] at hsup
    exact hn hsup
  rw [hlines n hn, reports_one_more hmem, or_iff_left hother]

/-- A rule that was compared in a file is still compared there. -/
theorem mem_comparedRules_one_more (hmem : ∀ y, y ∈ findings' ↔ y = x ∨ y ∈ findings) (file : Path) :
    ∀ rule ∈ (comparedRules (.ofFindings place findings) (annotated.notesOf file) file).elems,
      rule ∈ (comparedRules (.ofFindings place findings') (annotated.notesOf file) file).elems := by
  intro rule
  simp only [RuleComparisons.mem_comparedRules, Reported.mem_idsOf_ofFindings,
    exists_reports_one_more hmem]
  exact Or.imp_right .inl

/-- The ids match with a single finding if and only if no fixture exercises anything else. -/
theorem idsMatch_single (hmem : ∀ y, y ∈ findings' ↔ y = x ∨ y ∈ ([] : List Finding)) :
    IdsMatch place findings' annotated ↔ ∀ file, ∀ rule ∈ (annotated.notesOf file).tested.elems,
      (place x.path).same file = true ∧ x.rule = rule := by
  have hne : findings' ≠ [] := List.ne_nil_of_mem ((hmem x).2 (.inl rfl))
  have hnone : ∀ file rule, ¬ ∃ n, Reports place [] file rule n := by simp [Reports]
  rw [IdsMatch, or_iff_right hne]
  simp only [IdsMatchIn, exists_reports_one_more hmem, hnone, false_or]
  refine forall_congr' fun file => ?_
  constructor
  · rintro (hempty | hall) rule hrule
    · exact absurd hrule (hempty rule)
    · exact (hall rule).1 hrule
  · intro hall
    by_cases hrule : x.rule ∈ (annotated.notesOf file).tested.elems
    · refine .inr fun rule => ⟨hall rule, ?_⟩
      rintro ⟨-, rfl⟩
      exact hrule
    · refine .inl fun rule h => ?_
      obtain ⟨-, rfl⟩ := hall rule h
      exact hrule h

/-- After other findings, the ids still match with one more if and only if its fixture exercises its
rule or nothing. -/
theorem idsMatch_one_more_of_ne_nil (hids : IdsMatch place findings annotated)
    (hne : findings ≠ []) (hmem : ∀ y, y ∈ findings' ↔ y = x ∨ y ∈ findings) :
    IdsMatch place findings' annotated ↔
      (∀ rule, rule ∉ (annotated.notesOf (place x.path)).tested.elems) ∨
        x.rule ∈ (annotated.notesOf (place x.path)).tested.elems := by
  have hne' : findings' ≠ [] := List.ne_nil_of_mem ((hmem x).2 (.inl rfl))
  have hids := hids.resolve_left hne
  rw [IdsMatch, or_iff_right hne']
  simp only [IdsMatchIn, exists_reports_one_more hmem] at hids ⊢
  constructor
  · intro hall
    exact (hall (place x.path)).imp_right fun h => (h x.rule).2 (.inr ⟨Path.same_self _, rfl⟩)
  · intro hx file
    by_cases hfile : (place x.path).same file = true
    · rw [Annotated.notesOf_congr hfile] at hx
      rcases hx with hempty | hx
      · exact .inl hempty
      -- The fixture exercises some rule, so its ids were those reported before.
      have hall := (hids file).resolve_left fun hempty => hempty _ hx
      refine .inr fun rule => ?_
      rw [← hall rule]
      refine (or_iff_left_of_imp ?_).symm
      rintro ⟨-, rfl⟩
      exact hx
    · simpa only [hfile, Bool.false_eq_true, false_and, or_false] using hids file

theorem idsMatch_one_more (hids : IdsMatch place findings annotated)
    (hmem : ∀ y, y ∈ findings' ↔ y = x ∨ y ∈ findings) :
    IdsMatch place findings' annotated ↔ IdAccepted place findings annotated x := by
  rw [IdAccepted]
  by_cases hne : findings = []
  · subst hne
    simpa using idsMatch_single hmem
  · rw [idsMatch_one_more_of_ne_nil hids hne hmem]
    simp [hne]

/-- If the first finding is accepted, no rule is expected in any file but its own. -/
theorem eq_of_compared_without_findings (haccepted : IdAccepted place [] annotated x) {rule : Text}
    {file other : Path} (hfile : Compared (.ofFindings place []) annotated rule file)
    (hother : Compared (.ofFindings place []) annotated rule other) : other = file := by
  have htested := (haccepted.resolve_left fun h => h.1 rfl).2
  have hself : ∀ {file}, Compared (.ofFindings place []) annotated rule file →
      (place x.path).same file = true := by
    intro file h
    rcases RuleComparisons.mem_comparedRules.1 h.2 with hexp | hid
    · exact (htested file rule (Annotations.mem_tested.2 (.inl hexp))).1
    · obtain ⟨n, y, hy, -⟩ := Reported.mem_idsOf_ofFindings.1 hid
      cases hy
  refine OrderedSet.eq_of_compare_eq hother.1 hfile.1 (Path.compare_eq_iff.2 ?_)
  rw [← Path.same_congr_left (hself hother)]
  exact hself hfile

end OneMore

/-- **One more finding where `todook` announces it.** Added to the findings of a passing run, it never
makes a verdict fail. The run goes on passing if and only if the check of the ids accepts the finding,
and ends with mismatches otherwise. -/
theorem passes_with_todoOk_finding (place : Path → Path) {findings findings' : List Finding}
    {annotated : Annotated} {x : Finding} (hpass : Passes place findings annotated)
    (htodo : x.line ∈ (annotated.notesOf (place x.path)).todoOk.linesOf x.rule)
    (hadded : AddedTo place findings x findings') :
    (IdAccepted place findings annotated x → Passes place findings' annotated) ∧
      (¬ IdAccepted place findings annotated x →
        ∃ ms, compareFindings (.ofFindings place findings') annotated = .error ms) := by
  have hids := (passes_iff.1 hpass).1
  have hids' := idsMatch_one_more hids hadded.mem_iff
  refine passes_of_kept hpass hids' (fun haccepted rule => ?_)
    (mem_comparedRules_one_more hadded.mem_iff) fun file rule =>
      linesMatchIn_one_more hadded.mem_iff (mem_suppressedLines.2 (.inl htodo))
  by_cases hne : findings = []
  · subst hne
    exact fun file _ hfile _ _ => .inr fun other hother _ =>
      eq_of_compared_without_findings haccepted hfile hother
  · exact keepsTexts_of_addedTo hids (hids'.2 haccepted) hne hadded rule

/-- A rule that the fixture also expects elsewhere may be reported where `todook` announces it. -/
theorem passes_with_todoOk_finding_of_expected_rule :
    let file : Path := ⟨"/t/a.py".toList⟩
    let fixture := "# ruleid: r\nx\n# todook: r\ny".toList
    let annotated := Annotated.ofFixtures (OrderedMap.empty.insert file fixture)
    let finding : Finding := ⟨"r".toList, file, 2⟩
    let extra : Finding := ⟨"r".toList, file, 4⟩
    Passes id [finding] annotated ∧
      extra.line ∈ (annotated.notesOf (id extra.path)).todoOk.linesOf extra.rule ∧
      Passes id [extra, finding] annotated := by
  intro file fixture annotated finding extra
  have hpass : Passes id [finding] annotated := by decide
  have htodo : extra.line ∈ (annotated.notesOf (id extra.path)).todoOk.linesOf extra.rule := by
    decide
  have hadded : AddedTo id [finding] extra [extra, finding] :=
    .inr ⟨fun y => by simp, steadyTexts_of_valid (by decide)⟩
  refine ⟨hpass, htodo, (passes_with_todoOk_finding id hpass htodo hadded).1 ?_⟩
  exact .inl ⟨by simp, .inr (by decide)⟩

/-- Before the other findings, one that writes the path of its file in another way gives the file another text. A
comparison that failed under the first one shows again. -/
theorem todoOk_finding_can_uncover :
    let first : Path := ⟨[slash, 0xFE]⟩
    let second : Path := ⟨[slash, 0xFF]⟩
    let annotated := Annotated.ofFixtures ((OrderedMap.empty.insert first "# ruleid: r\nx\ny".toList).insert
      second "# todook: r\nx".toList)
    let findings : List Finding := [⟨"r".toList, first, 3⟩, ⟨"r".toList, second, 2⟩]
    let extra : Finding := ⟨"r".toList, ⟨[slash, slash, 0xFF]⟩, 2⟩
    Passes id findings annotated ∧ IdAccepted id findings annotated extra ∧
      Passes id (findings ++ [extra]) annotated ∧ ¬ Passes id (extra :: findings) annotated := by
  intro first second annotated findings extra
  exact ⟨by decide, .inl ⟨by decide, .inl (OrderedSet.isEmpty_iff.1 (by decide))⟩, by decide, by decide⟩

/-- A rule that the fixture does not exercise may not: one finding of it where `todook` announces it
ends a passing run with a mismatch. -/
theorem todoOk_finding_can_mismatch :
    let file : Path := ⟨"/t/a.py".toList⟩
    let fixture := "# ruleid: a\nx\n# todook: r\ny".toList
    let annotated := Annotated.ofFixtures (OrderedMap.empty.insert file fixture)
    let finding : Finding := ⟨"a".toList, file, 2⟩
    let extra : Finding := ⟨"r".toList, file, 4⟩
    Passes id [finding] annotated ∧
      extra.line ∈ (annotated.notesOf (id extra.path)).todoOk.linesOf extra.rule ∧
      compareFindings (.ofFindings id [finding, extra]) annotated =
        .error [⟨file, [], ["r".toList]⟩] ∧
      ¬ Passes id [finding, extra] annotated := by
  decide

end RuleAudit
