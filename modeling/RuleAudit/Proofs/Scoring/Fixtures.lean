import RuleAudit.Proofs.Scoring.Entries

/-!
# Comparisons of fixtures

Fixtures are given by their texts, and their comparisons with findings by the lines of those texts: what
is announced by which marker, and what some finding is about.
-/

namespace RuleAudit

/-- The annotations of some fixtures, given by their texts. -/
def Annotated.ofFixtures (fixtures : OrderedMap Path Text) : Annotated :=
  fixtures.mapValues fun _ text => Annotations.ofText text

/-- The fixture of a file has a line with index `i`. -/
def FixtureLine (fixtures : OrderedMap Path Text) (file : Path) (i : Nat) (line : Text) : Prop :=
  ∃ text, fixtures.get? file = some text ∧ (Text.splitOn '\n' text)[i]? = some line

/-- Line `n` of a file is announced for a rule by a line of its fixture that carries the marker. -/
def FixtureMarks (fixtures : OrderedMap Path Text) (file : Path) (m : Marker) (rule : Text)
    (n : Nat) : Prop :=
  ∃ i line, FixtureLine fixtures file i line ∧ n = i + 2 ∧ m.occursIn line = true ∧
    Annotation.Names line rule

section Fixtures

variable {fixtures : OrderedMap Path Text} {file : Path} {rule : Text} {n : Nat}

theorem get?_ofFixtures (fixtures : OrderedMap Path Text) (file : Path) :
    (Annotated.ofFixtures fixtures).get? file = (fixtures.get? file).map Annotations.ofText :=
  OrderedMap.get?_mapValues fixtures Annotations.ofText file

theorem fixtureMarks_iff {m : Marker} : FixtureMarks fixtures file m rule n ↔
    ∃ text, fixtures.get? file = some text ∧ Annotations.Marks text m rule n := by
  constructor
  · rintro ⟨i, line, ⟨text, hget, hline⟩, hn, hm, hnames⟩
    exact ⟨text, hget, i, line, hline, hn, hm, hnames⟩
  · rintro ⟨text, hget, i, line, hline, hn, hm, hnames⟩
    exact ⟨i, line, ⟨text, hget, hline⟩, hn, hm, hnames⟩

/-- A file without a fixture has no annotations at all. -/
theorem notesOf_ofFixtures_of_none (hget : fixtures.get? file = none) :
    (Annotated.ofFixtures fixtures).notesOf file = .none := by
  rw [Annotated.notesOf, get?_ofFixtures, hget]
  rfl

theorem mem_expected_ofFixtures :
    n ∈ ((Annotated.ofFixtures fixtures).notesOf file).expected.linesOf rule ↔
      FixtureMarks fixtures file .ruleId rule n ∨ FixtureMarks fixtures file .todoRuleId rule n := by
  rw [fixtureMarks_iff, fixtureMarks_iff]
  cases hget : fixtures.get? file with
  | none => simp [notesOf_ofFixtures_of_none hget, Annotations.none, RulesByLine.mem_linesOf]
  | some text =>
    rw [Annotated.notesOf, get?_ofFixtures, hget]
    simpa using Annotations.mem_expected_ofText

theorem mem_suppressed_ofFixtures :
    n ∈ suppressedLines ((Annotated.ofFixtures fixtures).notesOf file) rule ↔
      FixtureMarks fixtures file .todoOk rule n ∨ FixtureMarks fixtures file .todoRuleId rule n := by
  rw [fixtureMarks_iff, fixtureMarks_iff, mem_suppressedLines]
  cases hget : fixtures.get? file with
  | none => simp [notesOf_ofFixtures_of_none hget, Annotations.none, RulesByLine.mem_linesOf]
  | some text =>
    rw [Annotated.notesOf, get?_ofFixtures, hget]
    simpa using or_congr Annotations.mem_todoOk_ofText Annotations.mem_todoExpected_ofText

theorem mem_tested_ofFixtures :
    rule ∈ ((Annotated.ofFixtures fixtures).notesOf file).tested.elems ↔
      ∃ m n, m ≠ .todoOk ∧ FixtureMarks fixtures file m rule n := by
  simp only [fixtureMarks_iff]
  cases hget : fixtures.get? file with
  | none => simp [notesOf_ofFixtures_of_none hget, Annotations.not_mem_tested_none]
  | some text =>
    rw [Annotated.notesOf, get?_ofFixtures, hget]
    simpa using Annotations.mem_tested_ofText

/-- What remains expected after the suppressed lines are taken away comes from lines that carry the
marker `ruleid` and neither of the two that suppress. -/
theorem expected_not_suppressed_iff :
    (n ∈ ((Annotated.ofFixtures fixtures).notesOf file).expected.linesOf rule ∧
        n ∉ suppressedLines ((Annotated.ofFixtures fixtures).notesOf file) rule) ↔
      ∃ i line, FixtureLine fixtures file i line ∧ n = i + 2 ∧
        Marker.ruleId.occursIn line = true ∧ Marker.todoRuleId.occursIn line = false ∧
        Marker.todoOk.occursIn line = false ∧ Annotation.Names line rule := by
  rw [mem_expected_ofFixtures, mem_suppressed_ofFixtures]
  constructor
  · rintro ⟨hexp, hsup⟩
    rw [or_iff_left fun h => hsup (.inr h)] at hexp
    obtain ⟨i, line, hline, rfl, hm, hnames⟩ := hexp
    have hnot : ∀ m, ¬ FixtureMarks fixtures file m rule (i + 2) → m.occursIn line = false :=
      fun m hm => Bool.eq_false_iff.2 fun h => hm ⟨i, line, hline, rfl, h, hnames⟩
    refine ⟨i, line, hline, rfl, hm, ?_, ?_, hnames⟩
    · exact hnot _ fun h => hsup (.inr h)
    · exact hnot _ fun h => hsup (.inl h)
  · rintro ⟨i, line, hline, rfl, hm, hrule, hok, hnames⟩
    -- A number belongs to one line only, so a suppressing marker would stand on the same line.
    have hnot : ∀ m, m.occursIn line = false → ¬ FixtureMarks fixtures file m rule (i + 2) := by
      rintro m hm ⟨j, line', ⟨text', hget', hline'⟩, hj, hm', -⟩
      obtain ⟨text, hget, hline⟩ := hline
      obtain rfl : j = i := by omega
      obtain rfl : text = text' := Option.some.inj (hget.symm.trans hget')
      obtain rfl : line = line' := Option.some.inj (hline.symm.trans hline')
      simp [hm] at hm'
    refine ⟨.inl ⟨i, line, hline, rfl, hm, hnames⟩, ?_⟩
    rintro (h | h)
    · exact hnot _ hok h
    · exact hnot _ hrule h

/-! ## Entries -/

variable {place : Path → Path} {findings : List Finding}

theorem reports_iff : Reports place findings file rule n ↔
    ∃ x ∈ findings, x.rule = rule ∧ (place x.path).same file = true ∧ x.line = n := by
  simp only [Reports, and_left_comm]

/-- A rule is compared in a file if a line that expects it or a finding of it is there. -/
theorem mem_comparedRules_ofFixtures :
    rule ∈ (comparedRules (.ofFindings place findings)
        ((Annotated.ofFixtures fixtures).notesOf file) file).elems ↔
      (∃ i line, FixtureLine fixtures file i line ∧
        (Marker.ruleId.occursIn line = true ∨ Marker.todoRuleId.occursIn line = true) ∧
        Annotation.Names line rule) ∨
      ∃ x ∈ findings, x.rule = rule ∧ (place x.path).same file = true := by
  simp only [RuleComparisons.mem_comparedRules, mem_expected_ofFixtures,
    Reported.mem_idsOf_ofFindings, reports_iff]
  refine or_congr ?_ ?_
  · constructor
    · rintro ⟨n, ⟨i, line, hline, -, hm, hnames⟩ | ⟨i, line, hline, -, hm, hnames⟩⟩
      · exact ⟨i, line, hline, .inl hm, hnames⟩
      · exact ⟨i, line, hline, .inr hm, hnames⟩
    · rintro ⟨i, line, hline, hm | hm, hnames⟩
      · exact ⟨i + 2, .inl ⟨i, line, hline, rfl, hm, hnames⟩⟩
      · exact ⟨i + 2, .inr ⟨i, line, hline, rfl, hm, hnames⟩⟩
  · constructor
    · rintro ⟨n, x, hx, hrule, hfile, -⟩
      exact ⟨x, hx, hrule, hfile⟩
    · rintro ⟨x, hx, hrule, hfile⟩
      exact ⟨x.line, x, hx, hrule, hfile, rfl⟩

theorem mem_suppressed_iff :
    n ∈ suppressedLines ((Annotated.ofFixtures fixtures).notesOf file) rule ↔
      ∃ i line, FixtureLine fixtures file i line ∧ n = i + 2 ∧
        (Marker.todoRuleId.occursIn line = true ∨ Marker.todoOk.occursIn line = true) ∧
        Annotation.Names line rule := by
  rw [mem_suppressed_ofFixtures]
  constructor
  · rintro (⟨i, line, hline, hn, hm, hnames⟩ | ⟨i, line, hline, hn, hm, hnames⟩)
    · exact ⟨i, line, hline, hn, .inr hm, hnames⟩
    · exact ⟨i, line, hline, hn, .inl hm, hnames⟩
  · rintro ⟨i, line, hline, hn, hm | hm, hnames⟩
    · exact .inr ⟨i, line, hline, hn, hm, hnames⟩
    · exact .inl ⟨i, line, hline, hn, hm, hnames⟩

/-- The entries of a rule and a file that is told apart depend on the fixture of the file and on the findings of
the rule in it, and on nothing else. -/
theorem has_ofFixtures_congr {fixtures' : OrderedMap Path Text} {findings' : List Finding}
    (hfile : ToldApart (.ofFindings place findings) (.ofFixtures fixtures) file)
    (hfile' : ToldApart (.ofFindings place findings') (.ofFixtures fixtures') file)
    (hfixture : fixtures'.get? file = fixtures.get? file)
    (hfindings : ∀ n, Reports place findings' file rule n ↔ Reports place findings file rule n)
    (m : LineComparison) :
    (compareLines (.ofFindings place findings') (.ofFixtures fixtures')).Has rule file m ↔
      (compareLines (.ofFindings place findings) (.ofFixtures fixtures)).Has rule file m := by
  have hnotes : (Annotated.ofFixtures fixtures').notesOf file =
      (Annotated.ofFixtures fixtures).notesOf file := by
    rw [Annotated.notesOf, Annotated.notesOf, get?_ofFixtures, get?_ofFixtures, hfixture]
  have hlines : (Reported.ofFindings place findings').linesOf file rule =
      (Reported.ofFindings place findings).linesOf file rule := by
    refine eq_of_ascending ?_ ?_ ?_
    · exact (Reported.linesOf_ascending _ file rule).imp Nat.compare_eq_lt.2
    · exact (Reported.linesOf_ascending _ file rule).imp Nat.compare_eq_lt.2
    · intro n
      rw [Reported.mem_linesOf_ofFindings, Reported.mem_linesOf_ofFindings, hfindings]
  simp only [RuleComparisons.has_compareLines_of_toldApart hfile,
    RuleComparisons.has_compareLines_of_toldApart hfile', RuleComparisons.mem_comparedRules,
    Reported.mem_idsOf_ofFindings, hnotes, hfindings, lineComparison, hlines]

end Fixtures

/-- **The exact meaning of a comparison.** When the findings can be compared with the fixtures, and no other
compared file has the text of a file, a rule has an entry for the file, under one spelling of its path, if and
only if a line of the fixture with `ruleid` or `todoruleid` names the rule or some finding of the rule is about
the file. Its expected lines are those announced by `ruleid` alone, its reported lines those of the findings that
no `todoruleid` or `todook` announces, both ascending. Nothing else in the fixtures or the findings
has a part in it. -/
theorem comparison_of_fixtures (place : Path → Path) (findings : List Finding)
    (fixtures : OrderedMap Path Text) {table : RuleComparisons}
    (h : compareFindings (.ofFindings place findings) (.ofFixtures fixtures) = .ok table)
    (rule : Text) (file : Path)
    (hfile : ToldApart (.ofFindings place findings) (.ofFixtures fixtures) file) :
    ((∃ m, table.Has rule file m) ↔
      (∃ i line, FixtureLine fixtures file i line ∧
        (Marker.ruleId.occursIn line = true ∨ Marker.todoRuleId.occursIn line = true) ∧
        Annotation.Names line rule) ∨
      ∃ x ∈ findings, x.rule = rule ∧ (place x.path).same file = true) ∧
    (∀ (key key' : Text) (m m' : LineComparison), (Path.mk key).same file.viaText = true →
      (Path.mk key').same file.viaText = true →
      table.at? rule key = some m → table.at? rule key' = some m' → key = key') ∧
    (∀ m, table.Has rule file m →
      m.expected.Pairwise (· < ·) ∧
      (∀ n, n ∈ m.expected ↔ ∃ i line, FixtureLine fixtures file i line ∧ n = i + 2 ∧
        Marker.ruleId.occursIn line = true ∧ Marker.todoRuleId.occursIn line = false ∧
        Marker.todoOk.occursIn line = false ∧ Annotation.Names line rule) ∧
      m.reported.Pairwise (· < ·) ∧
      ∀ n, n ∈ m.reported ↔
        (∃ x ∈ findings, x.rule = rule ∧ (place x.path).same file = true ∧ x.line = n) ∧
        ¬ ∃ i line, FixtureLine fixtures file i line ∧ n = i + 2 ∧
          (Marker.todoRuleId.occursIn line = true ∨ Marker.todoOk.occursIn line = true) ∧
          Annotation.Names line rule) ∧
    ∀ (findings' : List Finding) (fixtures' : OrderedMap Path Text) (table' : RuleComparisons),
      compareFindings (.ofFindings place findings') (.ofFixtures fixtures') = .ok table' →
      ToldApart (.ofFindings place findings') (.ofFixtures fixtures') file →
      fixtures'.get? file = fixtures.get? file →
      (∀ n, Reports place findings' file rule n ↔ Reports place findings file rule n) →
      ∀ m, table'.Has rule file m ↔ table.Has rule file m := by
  obtain rfl := eq_compareLines_of_ok h
  refine ⟨?_, ?_, ?_, ?_⟩
  · simp only [RuleComparisons.has_compareLines_of_toldApart hfile, exists_and_left, exists_eq, and_true,
      mem_comparedRules_ofFixtures]
  · intro key key' m m' hkey hkey' hm hm'
    exact RuleComparisons.key_unique hfile hm hm' hkey hkey'
  · intro m hm
    obtain ⟨-, rfl⟩ := (RuleComparisons.has_compareLines_of_toldApart hfile).1 hm
    obtain ⟨hexp, hrep⟩ := lineComparison_ascending (.ofFindings place findings)
      ((Annotated.ofFixtures fixtures).notesOf file) file rule
    refine ⟨hexp, fun n => ?_, hrep, fun n => ?_⟩
    · rw [mem_lineComparison_expected, expected_not_suppressed_iff]
    · rw [mem_lineComparison_reported, Reported.mem_linesOf_ofFindings, reports_iff,
        mem_suppressed_iff]
  · intro findings' fixtures' table' h' hfile' hfixture hfindings
    obtain rfl := eq_compareLines_of_ok h'
    exact has_ofFixtures_congr hfile hfile' hfixture hfindings

/-- A fixture with all four markers: the rule of the `todook` line is reported and suppressed, and
the entry of the file holds the one expected line. -/
theorem comparison_of_mixed_fixture :
    let file : Path := ⟨"/t".toList⟩
    let fixture := ("# ruleid: a\nx\n# todoruleid: a, b\ny\n# ok: a\nz\n# todook: b\nu").toList
    let findings : List Finding :=
      [⟨"a".toList, file, 2⟩, ⟨"b".toList, ⟨"//t/".toList⟩, 8⟩]
    let fixtures : OrderedMap Path Text := OrderedMap.empty.insert file fixture
    ∃ table, compareFindings (.ofFindings id findings) (.ofFixtures fixtures) = .ok table ∧
      ToldApart (.ofFindings id findings) (.ofFixtures fixtures) file ∧
      ∃ m, table.Has "b".toList file m ∧ 8 ∉ m.reported := by
  intro file fixture findings fixtures
  have h : compareFindings (.ofFindings id findings) (.ofFixtures fixtures) =
      .ok (compareLines (.ofFindings id findings) (.ofFixtures fixtures)) := by
    rw [compareFindings, show mismatches (.ofFindings id findings) (.ofFixtures fixtures) = [] by
      decide]
  have hfile : ToldApart (.ofFindings id findings) (.ofFixtures fixtures) file := by decide
  obtain ⟨hexists, -, hlines, -⟩ :=
    comparison_of_fixtures id findings fixtures h "b".toList file hfile
  obtain ⟨m, hm⟩ := hexists.2 (.inr ⟨⟨"b".toList, ⟨"//t/".toList⟩, 8⟩, by decide, rfl, by decide⟩)
  refine ⟨_, h, hfile, m, hm, ?_⟩
  rw [(hlines m hm).2.2.2]
  rintro ⟨-, hnot⟩
  refine hnot ⟨6, "# todook: b".toList, ⟨fixture, by decide, by decide⟩, rfl, .inr (by decide), ?_⟩
  exact ⟨by decide, OrderedSet.ofList ["b".toList], by decide, by decide⟩

/-- **Two files with one text** share an entry, and the comparison of the second one stays. The finding on line 3
of the first file is in no comparison, and every verdict passes. -/
theorem comparison_of_files_with_one_text :
    let first : Path := ⟨[slash, 0xFE]⟩
    let second : Path := ⟨[slash, 0xFF]⟩
    let fixture := "# ruleid: r\nx\ny".toList
    let fixtures : OrderedMap Path Text := (OrderedMap.empty.insert first fixture).insert second fixture
    let findings : List Finding := [⟨"r".toList, first, 3⟩, ⟨"r".toList, second, 2⟩]
    first.same second = false ∧
    ∃ table, compareFindings (.ofFindings id findings) (.ofFixtures fixtures) = .ok table ∧
      table.Has "r".toList first ⟨[2], [2]⟩ ∧
      (∀ files ∈ table.values, ∀ m ∈ files.values, 3 ∉ m.reported) ∧
      ∀ check ∈ (ConfigVerdict.ofComparisons table).values, check.passed = true := by
  intro first second fixture fixtures findings
  refine ⟨by decide, compareLines (.ofFindings id findings) (.ofFixtures fixtures), ?_, ?_, ?_⟩
  · decide
  · exact ⟨first.display, by decide, by decide⟩
  · decide

end RuleAudit
