import Mathlib.Data.List.Induction
import RuleAudit.Proofs.Annotation.Marks
import RuleAudit.Proofs.Path.Texts
import RuleAudit.Proofs.Scoring.Findings
import RuleAudit.Scoring.Verdict

/-!
# The entries of a comparison table

The table of comparisons is filled file by file and rule by rule. An entry is kept under the text of its file,
so files with one text share it, and the last of them stays. Where no other file has the text of a file, each
of its entries depends only on the file and the rule: it is the line comparison of the two, and it is there if
and only if a finding of the rule is expected in the file or was reported for it.
-/

namespace RuleAudit

/-- The entry of a rule under the text of a path. -/
def RuleComparisons.at? (table : RuleComparisons) (rule key : Text) : Option LineComparison :=
  (table.get? rule).bind fun files => files.get? key

/-- The table has an entry of the rule whose key spells the path of the file. -/
def RuleComparisons.Has (table : RuleComparisons) (rule : Text) (file : Path)
    (m : LineComparison) : Prop :=
  ∃ key : Text, (Path.mk key).same file.viaText = true ∧ table.at? rule key = some m

/-- The annotations of a file; a file that is no fixture has none. -/
def Annotated.notesOf (annotated : Annotated) (file : Path) : Annotations :=
  (annotated.get? file).getD .none

theorem Annotated.notesOf_congr {file file' : Path} (h : file.same file' = true)
    (annotated : Annotated) : annotated.notesOf file = annotated.notesOf file' := by
  rw [notesOf, notesOf, OrderedMap.get?_congr (Path.compare_eq_iff.2 h)]

/-- A rule is compared in a file. -/
def Compared (reported : Reported) (annotated : Annotated) (rule : Text) (file : Path) : Prop :=
  file ∈ (comparedFiles reported annotated).elems ∧
    rule ∈ (comparedRules reported (annotated.notesOf file) file).elems

/-- A rule is compared in a file, and the comparison is the one that is kept under the text of the file. -/
structure Shown (reported : Reported) (annotated : Annotated) (rule : Text) (file : Path) : Prop where
  compared : Compared reported annotated rule file
  last : ∀ other, Compared reported annotated rule other → other.display = file.display →
    other = file ∨ Before other file

/-- No compared file but the file itself has a text that reads like the text of the file. -/
def ToldApart (reported : Reported) (annotated : Annotated) (file : Path) : Prop :=
  ∀ other ∈ (comparedFiles reported annotated).elems,
    other.viaText.same file.viaText = true → other.same file = true

instance (reported : Reported) (annotated : Annotated) (file : Path) :
    Decidable (ToldApart reported annotated file) :=
  inferInstanceAs (Decidable (∀ other ∈ (comparedFiles reported annotated).elems, _ → _))

/-! ## Filling the table -/

namespace RuleComparisons

theorem at?_addComparison (table : RuleComparisons) (rule key rule' key' : Text)
    (m : LineComparison) : (addComparison table rule key m).at? rule' key' =
      if key' = key ∧ rule' = rule then some m else table.at? rule' key' := by
  simp only [at?, addComparison, OrderedMap.get?_alter, Std.LawfulEqOrd.compare_eq_iff_eq]
  by_cases hrule : rule' = rule
  · subst hrule
    cases hget : table.get? rule' <;>
      by_cases hkey : key' = key <;> simp [OrderedMap.get?_insert, hkey]
  · simp [hrule]

theorem at?_foldl_addComparison (rules : List Text) (key : Text) (f : Text → LineComparison)
    (table : RuleComparisons) (rule' key' : Text) :
    (rules.foldl (fun table rule => addComparison table rule key (f rule)) table).at? rule' key' =
      if key' = key ∧ rule' ∈ rules then some (f rule') else table.at? rule' key' := by
  induction rules generalizing table with
  | nil => simp
  | cons rule rest ih =>
    rw [List.foldl_cons, ih, at?_addComparison]
    by_cases hkey : key' = key
    · by_cases hrest : rule' ∈ rest
      · simp [hkey, hrest]
      · by_cases hrule : rule' = rule <;> simp [hkey, hrest, hrule]
    · simp [hkey]

theorem at?_compareFile (reported : Reported) (annotated : Annotated) (table : RuleComparisons)
    (file : Path) (rule key : Text) :
    (compareFile reported annotated table file).at? rule key =
      if key = file.display ∧ rule ∈ (comparedRules reported (annotated.notesOf file) file).elems then
        some (lineComparison reported (annotated.notesOf file) file rule)
      else table.at? rule key :=
  at?_foldl_addComparison _ _ (lineComparison reported (annotated.notesOf file) file) _ _ _

/-- The comparison under a text is that of the last file with this text. -/
theorem at?_compareLines (reported : Reported) (annotated : Annotated) (rule key : Text) :
    (compareLines reported annotated).at? rule key =
      (((comparedFiles reported annotated).elems.filter fun file => key = file.display ∧
          rule ∈ (comparedRules reported (annotated.notesOf file) file).elems).getLast?).map
        fun file => lineComparison reported (annotated.notesOf file) file rule := by
  rw [compareLines]
  induction (comparedFiles reported annotated).elems using List.reverseRecOn with
  | nil => rfl
  | append_singleton files file ih =>
    rw [List.foldl_append, List.foldl_cons, List.foldl_nil, at?_compareFile, ih, List.filter_append]
    by_cases hfile : key = file.display ∧
        rule ∈ (comparedRules reported (annotated.notesOf file) file).elems
    · simp [hfile]
    · rw [if_neg hfile, List.filter_singleton, decide_eq_false hfile]
      simp

/-- **Each entry is the comparison of a file with its text**, and of one file only. -/
theorem at?_eq_some_iff {reported : Reported} {annotated : Annotated} {rule key : Text}
    {m : LineComparison} : (compareLines reported annotated).at? rule key = some m ↔
      ∃ file, Shown reported annotated rule file ∧ file.display = key ∧
        m = lineComparison reported (annotated.notesOf file) file rule := by
  rw [at?_compareLines, Option.map_eq_some_iff]
  refine exists_congr fun file => ?_
  rw [getLast?_filter_eq_some_iff (comparedFiles reported annotated).sorted]
  simp only [decide_eq_true_iff]
  constructor
  · rintro ⟨⟨hfile, ⟨rfl, hrule⟩, hlast⟩, rfl⟩
    exact ⟨⟨⟨hfile, hrule⟩, fun other hother htext => hlast other hother.1 ⟨htext.symm, hother.2⟩⟩,
      rfl, rfl⟩
  · rintro ⟨⟨⟨hfile, hrule⟩, hlast⟩, rfl, rfl⟩
    exact ⟨⟨hfile, ⟨rfl, hrule⟩, fun other hother h => hlast other ⟨hother, h.2⟩ h.1.symm⟩, rfl⟩

/-- Where a rule is compared in a file, there is an entry under the text of the file. -/
theorem exists_shown {reported : Reported} {annotated : Annotated} {rule : Text} {file : Path}
    (h : Compared reported annotated rule file) :
    ∃ shown, Shown reported annotated rule shown ∧ shown.display = file.display := by
  have hmem : file ∈ (comparedFiles reported annotated).elems.filter fun other =>
      file.display = other.display ∧
        rule ∈ (comparedRules reported (annotated.notesOf other) other).elems :=
    List.mem_filter.2 ⟨h.1, decide_eq_true ⟨rfl, h.2⟩⟩
  have hlast := List.getLast?_eq_some_getLast (List.ne_nil_of_mem hmem)
  have hat := at?_compareLines reported annotated rule file.display
  rw [hlast, Option.map_some] at hat
  obtain ⟨shown, hshown, htext, -⟩ := at?_eq_some_iff.1 hat
  exact ⟨shown, hshown, htext⟩

/-! ## What the table ranges over -/

theorem mem_comparedRules {reported : Reported} {notes : Annotations} {file : Path} {rule : Text} :
    rule ∈ (comparedRules reported notes file).elems ↔
      (∃ n, n ∈ notes.expected.linesOf rule) ∨ rule ∈ (reported.idsOf file).elems := by
  rw [comparedRules, OrderedSet.mem_union, RulesByLine.mem_rules]

/-- A file with an expected or a reported rule is compared, under some spelling of its path. -/
theorem exists_mem_comparedFiles {reported : Reported} {annotated : Annotated} {file : Path}
    {rule : Text} (h : rule ∈ (comparedRules reported (annotated.notesOf file) file).elems) :
    ∃ file' ∈ (comparedFiles reported annotated).elems, file'.same file = true := by
  have hcontains : (comparedFiles reported annotated).contains file = true := by
    rw [comparedFiles, OrderedSet.contains_ofList, List.any_append, Bool.or_eq_true,
      List.any_eq_true, List.any_eq_true]
    rcases mem_comparedRules.1 h with ⟨n, hn⟩ | hid
    · left
      cases hget : annotated.get? file with
      | none => simp [Annotated.notesOf, hget, Annotations.none, RulesByLine.mem_linesOf] at hn
      | some notes =>
        obtain ⟨file', hsame, hmem⟩ := OrderedMap.get?_eq_some_iff.1 hget
        have hne : notes.expected.isEmpty = false := by
          rw [Annotated.notesOf, hget] at hn
          exact RulesByLine.isEmpty_eq_false hn
        refine ⟨file', ?_, by simp [hsame]⟩
        simp only [List.mem_map, List.mem_filter]
        exact ⟨(file', notes), ⟨hmem, by simp [hne]⟩, rfl⟩
    · right
      have hsome : (reported.get? file).isSome = true := by
        rw [Reported.mem_idsOf, Reported.rulesOf] at hid
        cases hget : reported.get? file with
        | none => simp [hget] at hid
        | some rules => rfl
      obtain ⟨file', hmem, hsame⟩ := OrderedMap.exists_mem_keys_iff.2 hsome
      exact ⟨file', hmem, by simp [hsame]⟩
  obtain ⟨file', hmem, hsame⟩ := OrderedSet.contains_iff.1 hcontains
  exact ⟨file', hmem, by rw [Path.same_comm]; exact Path.compare_eq_iff.1 hsame⟩

theorem lineComparison_congr {file file' : Path} (h : file.same file' = true)
    (reported : Reported) (notes : Annotations) (rule : Text) :
    lineComparison reported notes file rule = lineComparison reported notes file' rule := by
  rw [lineComparison, lineComparison, Reported.linesOf_congr h]

theorem lineComparison_notes_congr {reported : Reported} {annotated : Annotated} {file file' : Path}
    (h : file.same file' = true) (rule : Text) :
    lineComparison reported (annotated.notesOf file) file rule =
      lineComparison reported (annotated.notesOf file') file' rule := by
  rw [Annotated.notesOf_congr h, lineComparison_congr h]

theorem comparedRules_congr {reported : Reported} {annotated : Annotated} {file file' : Path}
    (h : file.same file' = true) : comparedRules reported (annotated.notesOf file) file =
      comparedRules reported (annotated.notesOf file') file' := by
  rw [comparedRules, comparedRules, Annotated.notesOf_congr h, Reported.idsOf_congr h]

/-- A rule that is expected in a file or reported for it is compared under some spelling of the path. -/
theorem exists_compared {reported : Reported} {annotated : Annotated} {file : Path} {rule : Text}
    (h : rule ∈ (comparedRules reported (annotated.notesOf file) file).elems) :
    ∃ file', Compared reported annotated rule file' ∧ file'.same file = true := by
  obtain ⟨file', hmem, hsame⟩ := exists_mem_comparedFiles h
  exact ⟨file', ⟨hmem, by rwa [comparedRules_congr hsame]⟩, hsame⟩

/-- The entry of a rule under the text of a file is the comparison of a file that reads like it. -/
theorem has_compareLines {reported : Reported} {annotated : Annotated} {rule : Text} {file : Path}
    {m : LineComparison} : (compareLines reported annotated).Has rule file m ↔
      ∃ shown, Shown reported annotated rule shown ∧ shown.viaText.same file.viaText = true ∧
        m = lineComparison reported (annotated.notesOf shown) shown rule := by
  simp only [Has, at?_eq_some_iff]
  constructor
  · rintro ⟨key, hkey, shown, hshown, rfl, rfl⟩
    exact ⟨shown, hshown, hkey, rfl⟩
  · rintro ⟨shown, hshown, hsame, rfl⟩
    exact ⟨shown.display, hsame, shown, hshown, rfl, rfl⟩

theorem exists_has_compareLines {reported : Reported} {annotated : Annotated} {rule : Text}
    {file : Path} (h : rule ∈ (comparedRules reported (annotated.notesOf file) file).elems) :
    ∃ m, (compareLines reported annotated).Has rule file m := by
  obtain ⟨file', hcompared, hsame⟩ := exists_compared h
  obtain ⟨shown, hshown, htext⟩ := exists_shown hcompared
  refine ⟨_, has_compareLines.2 ⟨shown, hshown, ?_, rfl⟩⟩
  rw [Path.viaText, htext]
  exact Path.same_viaText hsame

/-- **The entries of a file that is told apart** are the comparisons of the rules expected in it or reported
for it. -/
theorem has_compareLines_of_toldApart {reported : Reported} {annotated : Annotated} {rule : Text}
    {file : Path} (hfile : ToldApart reported annotated file) {m : LineComparison} :
    (compareLines reported annotated).Has rule file m ↔
      rule ∈ (comparedRules reported (annotated.notesOf file) file).elems ∧
        m = lineComparison reported (annotated.notesOf file) file rule := by
  have hone : ∀ {m}, (compareLines reported annotated).Has rule file m →
      rule ∈ (comparedRules reported (annotated.notesOf file) file).elems ∧
        m = lineComparison reported (annotated.notesOf file) file rule := by
    intro m hm
    obtain ⟨shown, hshown, htext, rfl⟩ := has_compareLines.1 hm
    have hsame : shown.same file = true := hfile shown hshown.compared.1 htext
    rw [← comparedRules_congr hsame, ← lineComparison_notes_congr hsame]
    exact ⟨hshown.compared.2, rfl⟩
  refine ⟨hone, ?_⟩
  rintro ⟨hrule, rfl⟩
  obtain ⟨m, hm⟩ := exists_has_compareLines hrule
  rwa [(hone hm).2] at hm

/-- A file that is told apart is listed under one spelling only. -/
theorem key_unique {reported : Reported} {annotated : Annotated} {rule rule' key key' : Text}
    {file : Path} (hfile : ToldApart reported annotated file) {m m' : LineComparison}
    (h : (compareLines reported annotated).at? rule key = some m)
    (h' : (compareLines reported annotated).at? rule' key' = some m')
    (hkey : (Path.mk key).same file.viaText = true)
    (hkey' : (Path.mk key').same file.viaText = true) : key = key' := by
  obtain ⟨shown, hshown, rfl, -⟩ := at?_eq_some_iff.1 h
  obtain ⟨shown', hshown', rfl, -⟩ := at?_eq_some_iff.1 h'
  have hsame : shown.same file = true := hfile shown hshown.compared.1 hkey
  have hsame' : shown'.same file = true := hfile shown' hshown'.compared.1 hkey'
  rw [Path.same_comm] at hsame'
  rw [OrderedSet.eq_of_compare_eq hshown.compared.1 hshown'.compared.1
    (Path.compare_eq_iff.2 (Path.same_trans hsame hsame'))]

end RuleComparisons

theorem eq_compareLines_of_ok {reported : Reported} {annotated : Annotated}
    {table : RuleComparisons} (h : compareFindings reported annotated = .ok table) :
    table = compareLines reported annotated := by
  rw [compareFindings] at h
  split at h
  · exact (Except.ok.inj h).symm
  · cases h

theorem mem_suppressedLines {notes : Annotations} {rule : Text} {n : Nat} :
    n ∈ suppressedLines notes rule ↔
      n ∈ notes.todoOk.linesOf rule ∨ n ∈ notes.todoExpected.linesOf rule := by
  rw [suppressedLines, List.mem_append]

theorem mem_lineComparison_expected {reported : Reported} {notes : Annotations} {file : Path}
    {rule : Text} {n : Nat} : n ∈ (lineComparison reported notes file rule).expected ↔
      n ∈ notes.expected.linesOf rule ∧ n ∉ suppressedLines notes rule := by
  simp [lineComparison]

theorem mem_lineComparison_reported {reported : Reported} {notes : Annotations} {file : Path}
    {rule : Text} {n : Nat} : n ∈ (lineComparison reported notes file rule).reported ↔
      n ∈ reported.linesOf file rule ∧ n ∉ suppressedLines notes rule := by
  simp [lineComparison]

/-- Both line lists of a comparison ascend strictly. -/
theorem lineComparison_ascending (reported : Reported) (notes : Annotations) (file : Path)
    (rule : Text) : (lineComparison reported notes file rule).expected.Pairwise (· < ·) ∧
      (lineComparison reported notes file rule).reported.Pairwise (· < ·) :=
  ⟨(notes.expected.linesOf_ascending rule).filter _,
    (reported.linesOf_ascending file rule).filter _⟩

end RuleAudit
