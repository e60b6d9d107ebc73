import Mathlib.Data.Set.Basic
import RuleAudit.Proofs.Files.Places
import RuleAudit.Proofs.Scoring.Fixtures
import RuleAudit.Proofs.Scoring.Passing
import RuleAudit.Scoring.Fixtures

/-!
# Annotations of targets

The annotations of some targets are kept by the files that the targets name. Two targets may name one
file; then they have one text, so none of the announcements in it is lost.
-/

namespace RuleAudit.World

/-- Line `n` of a file is announced for a rule under a marker by one of the targets. -/
def TargetMarks (w : World) (targets : List Path) (file : Path) (m : Marker) (rule : Text)
    (n : Nat) : Prop :=
  ∃ t ∈ targets, (w.normalize t).same file = true ∧
    ∃ text, w.readText t = .ok text ∧ Annotations.Marks text m rule n

/-- The lines of a file where the targets announce a finding of a rule, also one known to be missing. -/
def expectedLines (w : World) (targets : List Path) (file : Path) (rule : Text) : Set ℕ :=
  {n | w.TargetMarks targets file .ruleId rule n ∨ w.TargetMarks targets file .todoRuleId rule n}

/-- The lines of a file where work on a rule is still to be done. -/
def todoLines (w : World) (targets : List Path) (file : Path) (rule : Text) : Set ℕ :=
  {n | w.TargetMarks targets file .todoOk rule n ∨ w.TargetMarks targets file .todoRuleId rule n}

/-- The lines of a file that some findings report for a rule. -/
def reportedLines (w : World) (findings : List Finding) (file : Path) (rule : Text) : Set ℕ :=
  {n | Reports w.normalize findings file rule n}

/-- In every file and for every rule, the lines that the targets expect are those that the findings
report, apart from lines with work to be done. -/
def LinesAgree (w : World) (targets : List Path) (findings : List Finding) : Prop :=
  ∀ (rule : Text) (file : Path),
    w.expectedLines targets file rule \ w.todoLines targets file rule =
      w.reportedLines findings file rule \ w.todoLines targets file rule

section Targets

variable {w : World} {targets : List Path}

theorem readText_of_annotateInto {known annotated : Annotated}
    (h : w.annotateInto known targets = .ok annotated) :
    ∀ t ∈ targets, ∃ text, w.readText t = .ok text := by
  induction targets generalizing known with
  | nil => simp
  | cons t rest ih =>
    rw [annotateInto] at h
    cases htext : w.readText t with
    | error e => simp [htext] at h
    | ok text =>
      simp only [htext] at h
      exact List.forall_mem_cons.2 ⟨⟨text, htext⟩, ih h⟩

/-- Targets read on top of known annotations: those of a file that some target names come from that
target, all others are as before. -/
theorem get?_annotateInto {known annotated : Annotated}
    (h : w.annotateInto known targets = .ok annotated) (file : Path) :
    (∀ t ∈ targets, (w.normalize t).same file = true → ∀ text, w.readText t = .ok text →
      annotated.get? file = some (Annotations.ofText text)) ∧
    ((∀ t ∈ targets, (w.normalize t).same file = false) →
      annotated.get? file = known.get? file) := by
  induction targets generalizing known with
  | nil =>
    obtain rfl := Except.ok.inj h
    simp
  | cons t rest ih =>
    have hread := readText_of_annotateInto h
    rw [annotateInto] at h
    obtain ⟨⟨text, htext⟩, hread⟩ := List.forall_mem_cons.1 hread
    simp only [htext] at h
    obtain ⟨ihnamed, ihother⟩ := ih h
    simp only [OrderedMap.get?_insert, Path.compare_eq_iff, Path.same_comm file] at ihother
    refine ⟨List.forall_mem_cons.2 ⟨?_, ihnamed⟩, fun hother => ?_⟩
    · intro hfile text' htext'
      obtain rfl : text = text' := Except.ok.inj (htext.symm.trans htext')
      by_cases hlater : ∃ t' ∈ rest, (w.normalize t').same file = true
      · -- A later target names the same file, so it has the same text.
        obtain ⟨t', hmem, hfile'⟩ := hlater
        obtain ⟨text', htext'⟩ := hread t' hmem
        have hsame : (w.normalize t).same (w.normalize t') = true := by
          rwa [Path.same_congr_right hfile']
        obtain rfl := readText_eq_of_same hsame htext htext'
        exact ihnamed t' hmem hfile' text htext'
      · rw [ihother fun t' hmem => Bool.eq_false_iff.2 fun hfile' => hlater ⟨t', hmem, hfile'⟩,
          if_pos hfile]
    · obtain ⟨hfile, hother⟩ := List.forall_mem_cons.1 hother
      rw [ihother hother, if_neg (by simp [hfile])]

/-- **The annotations of a file** are those of the targets that name it. -/
theorem get?_annotationsOf_iff {annotated : Annotated} (h : w.annotationsOf targets = .ok annotated)
    (file : Path) (notes : Annotations) : annotated.get? file = some notes ↔
      ∃ t ∈ targets, (w.normalize t).same file = true ∧
        ∃ text, w.readText t = .ok text ∧ notes = Annotations.ofText text := by
  obtain ⟨hnamed, hother⟩ := get?_annotateInto h file
  constructor
  · intro hget
    by_cases hsome : ∃ t ∈ targets, (w.normalize t).same file = true
    · obtain ⟨t, ht, hfile⟩ := hsome
      obtain ⟨text, htext⟩ := readText_of_annotateInto h t ht
      rw [hnamed t ht hfile text htext] at hget
      exact ⟨t, ht, hfile, text, htext, (Option.some.inj hget).symm⟩
    · rw [hother fun t ht => Bool.eq_false_iff.2 fun hfile => hsome ⟨t, ht, hfile⟩] at hget
      cases hget
  · rintro ⟨t, ht, hfile, text, htext, rfl⟩
    exact hnamed t ht hfile text htext

theorem exists_of_mem_annotateInto {known annotated : Annotated}
    (h : w.annotateInto known targets = .ok annotated) {e : Path × Annotations} (he : e ∈ annotated.entries) :
    (∃ t ∈ targets, w.normalize t = e.1) ∨ ∃ e' ∈ known.entries, e'.1 = e.1 := by
  induction targets generalizing known with
  | nil =>
    obtain rfl := Except.ok.inj h
    exact .inr ⟨e, he, rfl⟩
  | cons t rest ih =>
    obtain ⟨text, htext⟩ := readText_of_annotateInto h t List.mem_cons_self
    rw [annotateInto, htext] at h
    rcases ih h with ⟨t', ht', hfile⟩ | ⟨e', he', hkey⟩
    · exact .inl ⟨t', List.mem_cons_of_mem t ht', hfile⟩
    · rcases OrderedMap.key_of_mem_place he' with hnew | hold
      · exact .inl ⟨t, List.mem_cons_self, by rw [← hkey, hnew]⟩
      · exact .inr (hkey ▸ hold)

theorem exists_of_mem_annotationsOf {annotated : Annotated} (h : w.annotationsOf targets = .ok annotated)
    {e : Path × Annotations} (he : e ∈ annotated.entries) : ∃ t ∈ targets, w.normalize t = e.1 := by
  refine (exists_of_mem_annotateInto h he).resolve_right ?_
  rintro ⟨e', he', -⟩
  cases he'

variable {annotated : Annotated} (h : w.annotationsOf targets = .ok annotated)
include h

/-- A property of annotations that no annotations have not holds of a file's annotations if and only if
it holds of those of some target that names the file. -/
theorem notesOf_annotationsOf_iff (property : Annotations → Prop) (hnone : ¬ property .none)
    (file : Path) : property (annotated.notesOf file) ↔
      ∃ t ∈ targets, (w.normalize t).same file = true ∧
        ∃ text, w.readText t = .ok text ∧ property (Annotations.ofText text) := by
  constructor
  · intro hproperty
    cases hget : annotated.get? file with
    | none =>
      rw [Annotated.notesOf, hget] at hproperty
      exact absurd hproperty hnone
    | some notes =>
      rw [Annotated.notesOf, hget, Option.getD_some] at hproperty
      obtain ⟨t, ht, hfile, text, htext, rfl⟩ := (get?_annotationsOf_iff h file notes).1 hget
      exact ⟨t, ht, hfile, text, htext, hproperty⟩
  · rintro ⟨t, ht, hfile, text, htext, hproperty⟩
    have hget := (get?_annotationsOf_iff h file _).2 ⟨t, ht, hfile, text, htext, rfl⟩
    rwa [Annotated.notesOf, hget, Option.getD_some]

theorem mem_expected_annotationsOf {file : Path} {rule : Text} {n : Nat} :
    n ∈ (annotated.notesOf file).expected.linesOf rule ↔ n ∈ w.expectedLines targets file rule := by
  have hnone : n ∉ Annotations.none.expected.linesOf rule := by
    simp [Annotations.none, RulesByLine.mem_linesOf]
  rw [notesOf_annotationsOf_iff h (fun notes => n ∈ notes.expected.linesOf rule) hnone]
  simp only [Annotations.mem_expected_ofText, expectedLines, TargetMarks, Set.mem_ofPred_eq,
    and_or_left, exists_or]

theorem mem_suppressed_annotationsOf {file : Path} {rule : Text} {n : Nat} :
    n ∈ suppressedLines (annotated.notesOf file) rule ↔ n ∈ w.todoLines targets file rule := by
  have hnone : n ∉ suppressedLines .none rule := by
    simp [Annotations.none, mem_suppressedLines, RulesByLine.mem_linesOf]
  rw [notesOf_annotationsOf_iff h (fun notes => n ∈ suppressedLines notes rule) hnone]
  simp only [mem_suppressedLines, Annotations.mem_todoOk_ofText,
    Annotations.mem_todoExpected_ofText, todoLines, TargetMarks, Set.mem_ofPred_eq, and_or_left,
    exists_or]

/-- **Lines match** if and only if the expected lines of the targets agree with the reported ones. -/
theorem linesMatch_iff {findings : List Finding} :
    LinesMatch w.normalize findings annotated ↔ w.LinesAgree targets findings := by
  rw [LinesMatch, LinesAgree, forall_comm]
  refine forall_congr' fun rule => forall_congr' fun file => ?_
  simp only [LinesMatchIn, mem_expected_annotationsOf h, mem_suppressed_annotationsOf h, Set.ext_iff,
    Set.mem_sdiff, reportedLines, Set.mem_ofPred_eq]
  exact forall_congr' fun n => and_congr_left_iff.symm

/-- The compared files are places of the targets, or of what the findings are about. -/
theorem exists_of_mem_comparedFiles {findings : List Finding} {file : Path}
    (hfile : file ∈ (comparedFiles (.ofFindings w.normalize findings) annotated).elems) :
    file ∈ (targets ++ findings.map Finding.path).map w.normalize := by
  simp only [List.map_append, List.mem_append, List.map_map, List.mem_map, Function.comp_apply]
  rcases List.mem_append.1 (OrderedSet.mem_of_mem_ofList hfile) with hexpected | hkey
  · obtain ⟨e, he, rfl⟩ := List.mem_map.1 hexpected
    exact .inl (exists_of_mem_annotationsOf h (List.mem_filter.1 he).1)
  · obtain ⟨x, hx, rfl⟩ := Reported.exists_of_mem_keys hkey
    exact .inr ⟨x, hx, rfl⟩

end Targets

end RuleAudit.World
