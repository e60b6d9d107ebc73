import RuleAudit.Proofs.Annotation.Ids
import RuleAudit.Proofs.Scoring.Fixtures
import RuleAudit.Proofs.Scoring.Passing

/-!
# Lines that `todoruleid` announces

A line of a fixture is replaced by a comment with the marker `todoruleid` and the id of a rule. The line
that it announces is left out of every comparison, so no verdict changes. The fixture exercises the
rule from then on, so its ids have to be checked again.
-/

namespace RuleAudit

/-- The comment that announces a missing finding of a rule. -/
def todoRuleLine (rule : Text) : Text :=
  '#' :: (' ' :: Marker.todoRuleId.word) ++ ':' :: ' ' :: rule

example : todoRuleLine "eqeq".toList = "# todoruleid: eqeq".toList := by decide

theorem occursIn_todoRuleLine (rule : Text) :
    Marker.todoRuleId.occursIn (todoRuleLine rule) = true := by
  have hstart : (['#'] ++ ' ' :: Marker.todoRuleId.word).isPrefixOf (todoRuleLine rule) = true :=
    List.isPrefixOf_iff_prefix.2 ⟨':' :: ' ' :: rule, by simp [todoRuleLine]⟩
  have hopens : Marker.todoRuleId.opens (todoRuleLine rule) = true :=
    List.any_eq_true.2 ⟨['#'], List.mem_cons_self, by rw [hstart, Bool.or_true]⟩
  rw [todoRuleLine, List.cons_append] at hopens ⊢
  rw [Marker.occursIn, hopens, Bool.true_or]

theorem names_todoRuleLine_iff {id rule : Text} (hshape : Annotation.IdShape id)
    (hclosers : Annotation.NoClosers id) :
    Annotation.Names (todoRuleLine id) rule ↔ rule = id :=
  Annotation.names_single_iff (by decide) (by decide) hshape hclosers

theorem newline_not_mem_todoRuleLine {rule : Text} (h : '\n' ∉ rule) : '\n' ∉ todoRuleLine rule := by
  have hword : '\n' ∉ Marker.todoRuleId.word := by decide
  simp [todoRuleLine, hword, h]

/-! ## A fixture with one line replaced -/

section Replaced

variable {fixtures : OrderedMap Path Text} {file : Path} {text : Text} {i : Nat} {line new : Text}

/-- What is announced after a line without markers was replaced: what was announced before, and what
the new line announces. -/
theorem fixtureMarks_setLine (hget : fixtures.get? file = some text)
    (hline : (Text.splitOn '\n' text)[i]? = some line) (hplain : Marker.ofLine line = [])
    (hnew : '\n' ∉ new) {file' : Path} {m : Marker} {rule : Text} {n : Nat} :
    FixtureMarks (fixtures.insert file (Text.setLine text i new)) file' m rule n ↔
      FixtureMarks fixtures file' m rule n ∨
        file.same file' = true ∧ n = i + 2 ∧ m.occursIn new = true ∧ Annotation.Names new rule := by
  simp only [fixtureMarks_iff, OrderedMap.get?_insert, Path.compare_eq_iff, Path.same_comm file']
  by_cases hfile : file.same file' = true
  · have hget' : fixtures.get? file' = some text := by
      rw [← hget, OrderedMap.get?_congr (Path.compare_eq_iff.2 hfile)]
    simp only [hfile, if_true, hget', Option.some.injEq, exists_eq_left', true_and]
    have hindex : i < (Text.splitOn '\n' text).length := (List.getElem?_eq_some_iff.1 hline).1
    have hset : ∀ j, (Text.splitOn '\n' (Text.setLine text i new))[j]? =
        if j = i then some new else (Text.splitOn '\n' text)[j]? := by
      intro j
      rw [Text.splitOn_setLine text i hnew]
      by_cases hj : j = i
      · rw [if_pos hj, hj, List.getElem?_set_self hindex]
      · rw [if_neg hj, List.getElem?_set_ne (Ne.symm hj)]
    simp only [Annotations.Marks, hset]
    constructor
    · rintro ⟨j, line', hline', rfl, hm, hnames⟩
      by_cases hj : j = i
      · rw [if_pos hj, Option.some.injEq] at hline'
        subst hj hline'
        exact .inr ⟨rfl, hm, hnames⟩
      · rw [if_neg hj] at hline'
        exact .inl ⟨j, line', hline', rfl, hm, hnames⟩
    · rintro (⟨j, line', hline', rfl, hm, hnames⟩ | ⟨rfl, hm, hnames⟩)
      · -- The old line at `i` carries no marker, so this one is another.
        have hj : j ≠ i := by
          rintro rfl
          obtain rfl : line = line' := Option.some.inj (hline.symm.trans hline')
          have hmem := Marker.mem_ofLine.2 hm
          rw [hplain] at hmem
          cases hmem
        exact ⟨j, line', by rwa [if_neg hj], rfl, hm, hnames⟩
      · exact ⟨i, new, if_pos rfl, rfl, hm, hnames⟩
  · simp [hfile]

end Replaced

/-! ## The checks after the replacement -/

/-- If the fixture of a file exercised no rule so far, then nothing but the rule is reported there. -/
def OnlyRule (place : Path → Path) (findings : List Finding) (fixtures : OrderedMap Path Text)
    (file : Path) (rule : Text) : Prop :=
  (∀ other, other ∉ ((Annotated.ofFixtures fixtures).notesOf file).tested.elems) →
    ∀ other n, Reports place findings file other n → other = rule

section Checks

variable {place : Path → Path} {findings findings' : List Finding}
  {fixtures fixtures' : OrderedMap Path Text} {file : Path} {rule : Text} {i : Nat}

/-- In a passing run, every reported rule is named by a line of some fixture. -/
theorem names_of_reports (hpass : Passes place findings (.ofFixtures fixtures)) {n : Nat}
    (h : Reports place findings file rule n) : ∃ line, '\n' ∉ line ∧ Annotation.Names line rule := by
  have hrule : rule ∈ (comparedRules (.ofFindings place findings)
      ((Annotated.ofFixtures fixtures).notesOf file) file).elems :=
    RuleComparisons.mem_comparedRules.2 (.inr (Reported.mem_idsOf_ofFindings.2 ⟨n, h⟩))
  obtain ⟨file', hcompared, -⟩ := RuleComparisons.exists_compared hrule
  obtain ⟨shown, hshown, -⟩ := RuleComparisons.exists_shown hcompared
  have hexpected : ∀ {n}, n ∈ ((Annotated.ofFixtures fixtures).notesOf shown).expected.linesOf rule →
      ∃ m n, FixtureMarks fixtures shown m rule n := by
    intro n hexp
    rcases mem_expected_ofFixtures.1 hexp with hm | hm
    · exact ⟨_, _, hm⟩
    · exact ⟨_, _, hm⟩
  have hmarks : ∃ m n, FixtureMarks fixtures shown m rule n := by
    rcases RuleComparisons.mem_comparedRules.1 hshown.compared.2 with ⟨n, hexp⟩ | hid
    · exact hexpected hexp
    obtain ⟨n, hn⟩ := Reported.mem_idsOf_ofFindings.1 hid
    by_cases hsup : n ∈ suppressedLines ((Annotated.ofFixtures fixtures).notesOf shown) rule
    · rcases mem_suppressed_ofFixtures.1 hsup with hm | hm
      · exact ⟨_, _, hm⟩
      · exact ⟨_, _, hm⟩
    · exact hexpected (((passes_iff.1 hpass).2 rule shown hshown n hsup).2 hn)
  obtain ⟨m, n, j, line, ⟨text, -, hline⟩, -, -, hnames⟩ := hmarks
  exact ⟨line, Text.not_mem_of_mem_splitOn (List.mem_of_getElem? hline), hnames⟩

/-- One more finding of the rule itself is no other rule. -/
theorem onlyRule_one_more {x : Finding} (hx : x.rule = rule)
    (hmem : ∀ y, y ∈ findings' ↔ y = x ∨ y ∈ findings) :
    OnlyRule place findings' fixtures file rule ↔ OnlyRule place findings fixtures file rule := by
  simp only [OnlyRule, reports_one_more hmem, or_imp, forall_and]
  refine and_iff_left ?_
  rintro - other n ⟨-, rfl, -⟩
  exact hx

/-! What follows is about fixtures that announce one line more, and findings that differ on that line
at most. -/

variable
    (hmarks : ∀ file' m other n, FixtureMarks fixtures' file' m other n ↔
      FixtureMarks fixtures file' m other n ∨ file.same file' = true ∧ n = i + 2 ∧
        m.occursIn (todoRuleLine rule) = true ∧ other = rule)
    (hreports : ∀ file' other n, ¬ (file.same file' = true ∧ n = i + 2 ∧ other = rule) →
      (Reports place findings' file' other n ↔ Reports place findings file' other n))

include hmarks

/-- The fixture of the file exercises the rule from then on. -/
theorem mem_tested_with_todoRule (file' : Path) (other : Text) :
    other ∈ ((Annotated.ofFixtures fixtures').notesOf file').tested.elems ↔
      other ∈ ((Annotated.ofFixtures fixtures).notesOf file').tested.elems ∨
        file.same file' = true ∧ other = rule := by
  simp only [mem_tested_ofFixtures, hmarks]
  constructor
  · rintro ⟨m, n, hm, h | ⟨hfile, -, -, hrule⟩⟩
    · exact .inl ⟨m, n, hm, h⟩
    · exact .inr ⟨hfile, hrule⟩
  · rintro (⟨m, n, hm, h⟩ | ⟨hfile, hrule⟩)
    · exact ⟨m, n, hm, .inl h⟩
    · exact ⟨.todoRuleId, i + 2, by simp, .inr ⟨hfile, rfl, occursIn_todoRuleLine rule, hrule⟩⟩

include hreports

/-- The lines still match: the announced line is suppressed, and nothing else has changed. -/
theorem linesMatchIn_with_todoRule {file' : Path} {other : Text}
    (hlines : LinesMatchIn place findings (.ofFixtures fixtures) file' other) :
    LinesMatchIn place findings' (.ofFixtures fixtures') file' other := by
  intro n hn
  have hother : ¬ (file.same file' = true ∧ n = i + 2 ∧ other = rule) := by
    rintro ⟨hfile, hline, hrule⟩
    refine hn (mem_suppressed_ofFixtures.2 (.inr ((hmarks file' _ other n).2 (.inr ?_))))
    exact ⟨hfile, hline, occursIn_todoRuleLine rule, hrule⟩
  have hsame : ∀ m, FixtureMarks fixtures' file' m other n ↔ FixtureMarks fixtures file' m other n := by
    intro m
    rw [hmarks]
    refine or_iff_left ?_
    rintro ⟨hfile, hline, -, hrule⟩
    exact hother ⟨hfile, hline, hrule⟩
  rw [mem_suppressed_ofFixtures, hsame, hsame, ← mem_suppressed_ofFixtures] at hn
  rw [mem_expected_ofFixtures, hsame, hsame, ← mem_expected_ofFixtures, hreports _ _ _ hother]
  exact hlines n hn

/-- A rule that was compared in a file is still compared there. -/
theorem mem_comparedRules_with_todoRule (hnew : ¬ Reports place findings file rule (i + 2)) (file' : Path) :
    ∀ other ∈ (comparedRules (.ofFindings place findings)
      ((Annotated.ofFixtures fixtures).notesOf file') file').elems,
        other ∈ (comparedRules (.ofFindings place findings')
          ((Annotated.ofFixtures fixtures').notesOf file') file').elems := by
  intro other hother
  rw [RuleComparisons.mem_comparedRules, Reported.mem_idsOf_ofFindings] at hother ⊢
  rcases hother with ⟨n, hexp⟩ | ⟨n, hn⟩
  · refine .inl ⟨n, mem_expected_ofFixtures.2 ?_⟩
    rw [hmarks, hmarks]
    exact (mem_expected_ofFixtures.1 hexp).imp .inl .inl
  · refine .inr ⟨n, (hreports file' other n ?_).2 hn⟩
    rintro ⟨hfile, rfl, rfl⟩
    exact hnew ((reports_congr hfile _ _).2 hn)

/-- The ids of another file match as before. -/
theorem idsMatchIn_of_not_same {file' : Path} (hfile : ¬ file.same file' = true) :
    IdsMatchIn place findings' (.ofFixtures fixtures') file' ↔
      IdsMatchIn place findings (.ofFixtures fixtures) file' := by
  have hsame : ∀ other n, Reports place findings' file' other n ↔
      Reports place findings file' other n :=
    fun other n => hreports file' other n fun h => hfile h.1
  simp only [IdsMatchIn, mem_tested_with_todoRule hmarks, hfile, Bool.false_eq_true, false_and,
    or_false, hsame]

/-- The ids of the file match after the replacement if and only if the rule is reported in the file,
alone if the ids of the file were not checked before. -/
theorem idsMatchIn_with_todoRule
    (hids : IdsMatchIn place findings (.ofFixtures fixtures) file)
    (hnew : ¬ Reports place findings file rule (i + 2)) :
    IdsMatchIn place findings' (.ofFixtures fixtures') file ↔
      (∃ n, Reports place findings' file rule n) ∧ OnlyRule place findings' fixtures file rule := by
  simp only [IdsMatchIn, mem_tested_with_todoRule hmarks, Path.same_self, true_and]
  constructor
  · rintro (hempty | hall)
    · exact absurd (.inr rfl) (hempty rule)
    refine ⟨(hall rule).1 (.inr rfl), ?_⟩
    intro hempty other n hother
    exact ((hall other).2 ⟨n, hother⟩).resolve_left (hempty other)
  · rintro ⟨hrule, honly⟩
    -- The fixture exercises the rule now, so both sides have to be equal.
    refine .inr fun other => ?_
    constructor
    · rintro (hmem | rfl)
      · have hall := hids.resolve_left fun hempty => hempty other hmem
        obtain ⟨n, hn⟩ := (hall other).1 hmem
        refine ⟨n, (hreports file other n ?_).2 hn⟩
        rintro ⟨-, rfl, rfl⟩
        exact hnew hn
      · exact hrule
    · rintro ⟨n, hn⟩
      by_cases hother : other = rule
      · exact .inr hother
      rcases hids with hempty | hall
      · exact .inr (honly hempty other n hn)
      · exact .inl ((hall other).2 ⟨n, (hreports file other n fun h => hother h.2.2).1 hn⟩)

theorem idsMatch_with_todoRule (hids : IdsMatch place findings (.ofFixtures fixtures))
    (hne : findings ≠ []) (hne' : findings' ≠ [])
    (hnew : ¬ Reports place findings file rule (i + 2)) :
    IdsMatch place findings' (.ofFixtures fixtures') ↔
      (∃ n, Reports place findings' file rule n) ∧ OnlyRule place findings' fixtures file rule := by
  have hids := hids.resolve_left hne
  have hself := idsMatchIn_with_todoRule hmarks hreports (hids file) hnew
  rw [IdsMatch, or_iff_right hne']
  constructor
  · intro h
    exact hself.1 (h file)
  · intro h file'
    by_cases hfile : file.same file' = true
    · rw [← idsMatchIn_congr hfile]
      exact hself.2 h
    · exact (idsMatchIn_of_not_same hmarks hreports hfile).2 (hids file')

end Checks

/-- **A line replaced by a `todoruleid` comment.** In a passing run, a line without markers is replaced
by the comment for a rule that is reported somewhere, whose id has no closing token in it. No verdict
fails by that, whether or not the announced line is reported afterwards. The run goes on passing if
and only if the check of the ids lets the file through, and ends with mismatches otherwise: the
rule has to be reported in this file, and alone if the fixture exercised no rule so far. -/
theorem passes_with_todoRule_line (place : Path → Path) {findings : List Finding}
    {fixtures : OrderedMap Path Text} {file : Path} {text line rule : Text} {i : Nat}
    (hpass : Passes place findings (.ofFixtures fixtures)) (hget : fixtures.get? file = some text)
    (hline : (Text.splitOn '\n' text)[i]? = some line) (hplain : Marker.ofLine line = [])
    (hrule : ∃ file' n, Reports place findings file' rule n)
    (hnew : ¬ Reports place findings file rule (i + 2)) (hclosers : Annotation.NoClosers rule) :
    let replaced := fixtures.insert file (Text.setLine text i (todoRuleLine rule))
    ((((∃ n, Reports place findings file rule n) ∧ OnlyRule place findings fixtures file rule) →
        Passes place findings (.ofFixtures replaced)) ∧
      (¬ ((∃ n, Reports place findings file rule n) ∧ OnlyRule place findings fixtures file rule) →
        ∃ ms, compareFindings (.ofFindings place findings) (.ofFixtures replaced) = .error ms)) ∧
    ∀ (x : Finding) (findings' : List Finding), (place x.path).same file = true → x.rule = rule →
      x.line = i + 2 → AddedTo place findings x findings' →
      (OnlyRule place findings fixtures file rule → Passes place findings' (.ofFixtures replaced)) ∧
        (¬ OnlyRule place findings fixtures file rule →
          ∃ ms, compareFindings (.ofFindings place findings') (.ofFixtures replaced) = .error ms) := by
  intro replaced
  have hids := (passes_iff.1 hpass).1
  obtain ⟨file', n, hn⟩ := hrule
  have hne : findings ≠ [] := by
    obtain ⟨x, hx, -⟩ := hn
    exact List.ne_nil_of_mem hx
  -- The rule is an id that a line names, so the comment names it again.
  obtain ⟨named, hnewline, hnamed⟩ := names_of_reports hpass hn
  obtain ⟨hshape, hchars⟩ := Annotation.idShape_of_names hnamed
  have hmarks : ∀ file' m other n, FixtureMarks replaced file' m other n ↔
      FixtureMarks fixtures file' m other n ∨ file.same file' = true ∧ n = i + 2 ∧
        m.occursIn (todoRuleLine rule) = true ∧ other = rule := by
    intro file' m other n
    rw [fixtureMarks_setLine hget hline hplain
      (newline_not_mem_todoRuleLine fun h => hnewline (hchars _ h)),
      names_todoRuleLine_iff hshape hclosers]
  refine ⟨?_, ?_⟩
  · have hsame : ∀ file' other n, ¬ (file.same file' = true ∧ n = i + 2 ∧ other = rule) →
        (Reports place findings file' other n ↔ Reports place findings file' other n) :=
      fun _ _ _ _ => Iff.rfl
    have hids' := idsMatch_with_todoRule hmarks hsame hids hne hne hnew
    exact passes_of_kept hpass hids'
      (fun haccepted => keepsTexts_of_same_findings hids (hids'.2 haccepted) hne)
      (mem_comparedRules_with_todoRule hmarks hsame hnew)
      fun _ _ => linesMatchIn_with_todoRule hmarks hsame
  · rintro x findings' hfile rfl hx hadded
    have hmore : ∀ file' other n, Reports place findings' file' other n ↔
        Reports place findings file' other n ∨
          (place x.path).same file' = true ∧ x.rule = other ∧ x.line = n :=
      reports_one_more hadded.mem_iff
    have hreports : ∀ file' other n, ¬ (file.same file' = true ∧ n = i + 2 ∧ other = x.rule) →
        (Reports place findings' file' other n ↔ Reports place findings file' other n) := by
      intro file' other n hother
      rw [hmore, Path.same_congr_left hfile, hx]
      refine or_iff_left ?_
      rintro ⟨hsame, rfl, rfl⟩
      exact hother ⟨hsame, rfl, rfl⟩
    have hne' : findings' ≠ [] := List.ne_nil_of_mem ((hadded.mem_iff x).2 (.inl rfl))
    have hself : ∃ n, Reports place findings' file x.rule n :=
      ⟨x.line, (hmore file x.rule x.line).2 (.inr ⟨hfile, rfl, rfl⟩)⟩
    have hids' := idsMatch_with_todoRule hmarks hreports hids hne hne' hnew
    rw [and_iff_right hself, onlyRule_one_more rfl hadded.mem_iff] at hids'
    exact passes_of_kept hpass hids'
      (fun haccepted => keepsTexts_of_addedTo hids (hids'.2 haccepted) hne hadded)
      (mem_comparedRules_with_todoRule hmarks hreports hnew)
      fun _ _ => linesMatchIn_with_todoRule hmarks hreports

/-- In a file where the rule is reported on another line, the comment may replace a plain line. -/
theorem passes_with_todoRule_line_of_reported_rule :
    let file : Path := ⟨"/t/a.py".toList⟩
    let fixture := "# ruleid: r\nx\ny".toList
    let fixtures := OrderedMap.empty.insert file fixture
    let replaced := fixtures.insert file (Text.setLine fixture 2 (todoRuleLine "r".toList))
    let finding : Finding := ⟨"r".toList, file, 2⟩
    let extra : Finding := ⟨"r".toList, file, 4⟩
    Passes id [finding] (.ofFixtures fixtures) ∧ Passes id [finding] (.ofFixtures replaced) ∧
      Passes id [extra, finding] (.ofFixtures replaced) := by
  intro file fixture fixtures replaced finding extra
  have hpass : Passes id [finding] (.ofFixtures fixtures) := by decide
  have hreported : Reports id [finding] file "r".toList 2 :=
    ⟨finding, List.mem_cons_self, by decide, rfl, rfl⟩
  have hnew : ¬ Reports id [finding] file "r".toList (2 + 2) := by
    rintro ⟨x, hx, -, -, hline⟩
    obtain rfl := List.mem_singleton.1 hx
    cases hline
  have honly : OnlyRule id [finding] fixtures file "r".toList := by
    intro hempty
    exact absurd (by decide) (hempty "r".toList)
  obtain ⟨hsame, hmore⟩ := passes_with_todoRule_line id hpass
    (show fixtures.get? file = some fixture by decide)
    (show (Text.splitOn '\n' fixture)[2]? = some "y".toList by decide) (by decide)
    ⟨file, 2, hreported⟩ hnew (by decide)
  refine ⟨hpass, hsame.1 ⟨⟨2, hreported⟩, honly⟩, ?_⟩
  exact (hmore extra _ (by decide) rfl rfl
    (.inr ⟨fun y => by simp, steadyTexts_of_valid (by decide)⟩)).1 honly

/-- The comment can end a passing run: in a file where the rule is not reported, in one where the
fixture exercised nothing while another rule is reported on a line with `todook`, and for an id with
a closing token in it, which no line can name as it is. -/
theorem todoRule_line_can_fail :
    let a : Path := ⟨"/t/a.py".toList⟩
    let b : Path := ⟨"/t/b.py".toList⟩
    let fixtures (text : String) : OrderedMap Path Text :=
      (OrderedMap.empty.insert b "# ruleid: r\nx".toList).insert a text.toList
    let elsewhere : Finding := ⟨"r".toList, b, 2⟩
    let other : Finding := ⟨"s".toList, a, 2⟩
    let odd : Finding := ⟨"-->".toList, a, 2⟩
    (Passes id [elsewhere] (.ofFixtures (fixtures "x\ny")) ∧
      compareFindings (.ofFindings id [elsewhere]) (.ofFixtures ((fixtures "x\ny").insert a
        (Text.setLine "x\ny".toList 0 (todoRuleLine "r".toList)))) =
          .error [⟨a, ["r".toList], []⟩]) ∧
    (Passes id [elsewhere, other] (.ofFixtures (fixtures "# todook: s\nx\ny")) ∧
      compareFindings (.ofFindings id [elsewhere, other, ⟨"r".toList, a, 4⟩])
        (.ofFixtures ((fixtures "# todook: s\nx\ny").insert a
          (Text.setLine "# todook: s\nx\ny".toList 2 (todoRuleLine "r".toList)))) =
            .error [⟨a, [], ["s".toList]⟩]) ∧
    (Passes id [elsewhere, odd] (.ofFixtures (fixtures "# ruleid: --*)>\nx\ny")) ∧
      ¬ Passes id [elsewhere, odd, ⟨"-->".toList, a, 4⟩]
        (.ofFixtures ((fixtures "# ruleid: --*)>\nx\ny").insert a
          (Text.setLine "# ruleid: --*)>\nx\ny".toList 2 (todoRuleLine "-->".toList))))) := by
  decide

end RuleAudit
