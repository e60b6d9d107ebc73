import RuleAudit.Annotation.Tables
import RuleAudit.Proofs.Ordered.Lookup
import RuleAudit.Proofs.Ordered.Membership

/-!
# What the lines of a fixture announce

A line of a fixture announces the line two numbers further on (one below it, counted from one) under
each marker it carries, for each rule it names. The four tables of a text hold exactly these
announcements.
-/

namespace RuleAudit

/-- A line names a rule: it has a colon, and the ids after the first colon contain the rule. -/
def Annotation.Names (line rule : Text) : Prop :=
  ':' ∈ line ∧ ∃ ids, Annotation.parseIds line = .ok ids ∧ rule ∈ ids.elems

/-- Line `n` of a text is announced for a rule under a marker: it is `i + 2` for a line with index
`i` that carries the marker and names the rule. -/
def Annotations.Marks (text : Text) (m : Marker) (rule : Text) (n : Nat) : Prop :=
  ∃ i line, (Text.splitOn '\n' text)[i]? = some line ∧ n = i + 2 ∧ m.occursIn line = true ∧
    Annotation.Names line rule

theorem Marker.mem_ofLine {m : Marker} {line : Text} :
    m ∈ Marker.ofLine line ↔ m.occursIn line = true := by
  cases m <;> simp [Marker.ofLine, Marker.all]

/-! ## Tables -/

namespace RulesByLine

theorem mem_linesOf {t : RulesByLine} {rule : Text} {n : Nat} :
    n ∈ t.linesOf rule ↔ ∃ ids, t.get? n = some ids ∧ rule ∈ ids.elems := by
  simp only [linesOf, List.mem_map, List.mem_filter, OrderedSet.contains_iff_mem,
    OrderedMap.get?_eq_some_iff, Std.LawfulEqOrd.compare_eq_iff_eq]
  constructor
  · rintro ⟨⟨n', ids⟩, ⟨hmem, hrule⟩, rfl⟩
    exact ⟨ids, ⟨n', rfl, hmem⟩, hrule⟩
  · rintro ⟨ids, ⟨n', rfl, hmem⟩, hrule⟩
    exact ⟨(n, ids), ⟨hmem, hrule⟩, rfl⟩

/-- The lines of a rule ascend strictly. -/
theorem linesOf_ascending (t : RulesByLine) (rule : Text) :
    (t.linesOf rule).Pairwise (· < ·) := by
  refine ((t.sorted.filter _).map _ ?_)
  intro a b h
  exact Nat.compare_eq_lt.1 h

theorem mem_rules {t : RulesByLine} {rule : Text} :
    rule ∈ t.rules.elems ↔ ∃ n, n ∈ t.linesOf rule := by
  simp only [rules, OrderedSet.mem_ofList, List.mem_flatMap, linesOf, List.mem_map,
    List.mem_filter, OrderedSet.contains_iff_mem]
  constructor
  · rintro ⟨e, he, hrule⟩
    exact ⟨e.1, e, ⟨he, hrule⟩, rfl⟩
  · rintro ⟨n, e, ⟨he, hrule⟩, -⟩
    exact ⟨e, he, hrule⟩

theorem isEmpty_eq_false {t : RulesByLine} {rule : Text} {n : Nat} (h : n ∈ t.linesOf rule) :
    t.isEmpty = false := by
  obtain ⟨ids, hget, -⟩ := mem_linesOf.1 h
  rw [Bool.eq_false_iff]
  intro he
  simp [OrderedMap.isEmpty_iff.1 he] at hget

theorem mem_linesOf_add {t : RulesByLine} {line : Nat} {ids : OrderedSet Text} {rule : Text}
    {n : Nat} : n ∈ (t.add line ids).linesOf rule ↔
      n ∈ t.linesOf rule ∨ line = n ∧ rule ∈ ids.elems := by
  simp only [mem_linesOf, add, OrderedMap.get?_alter, Std.LawfulEqOrd.compare_eq_iff_eq]
  by_cases h : n = line
  · subst h
    cases hget : t.get? n <;> simp [OrderedSet.empty]
  · simp [h, Ne.symm h]

end RulesByLine

/-! ## The tables of a text -/

namespace Annotations

theorem note?_eq_some_iff {above : Nat} {line : Text} {x : Note} :
    note? above line = some x ↔ Marker.ofLine line ≠ [] ∧ ':' ∈ line ∧
      ∃ ids, Annotation.parseIds line = .ok ids ∧ x = ⟨above + 2, Marker.ofLine line, ids⟩ := by
  simp only [note?]
  by_cases hm : Marker.ofLine line = []
  · simp [hm]
  by_cases hc : ':' ∈ line
  · cases hp : Annotation.parseIds line with
    | error e => simp [hm, hc]
    | ok ids => simpa [hm, hc] using eq_comm
  · simp [hc]

theorem mem_notesFrom {above : Nat} {lines : List Text} {x : Note} :
    x ∈ notesFrom above lines ↔ ∃ i line, lines[i]? = some line ∧ note? (above + i) line = some x := by
  induction lines generalizing above with
  | nil => simp [notesFrom]
  | cons line rest ih =>
    simp only [notesFrom, List.mem_append, Option.mem_toList, ih]
    constructor
    · rintro (h | ⟨i, line', hline, h⟩)
      · exact ⟨0, line, rfl, h⟩
      · exact ⟨i + 1, line', hline, by rwa [Nat.add_assoc, Nat.add_comm 1] at h⟩
    · rintro ⟨i, line', hline, h⟩
      cases i with
      | zero =>
        obtain rfl : line = line' := by simpa using hline
        exact .inl h
      | succ i => exact .inr ⟨i, line', hline, by rwa [Nat.add_assoc, Nat.add_comm 1]⟩

theorem mem_linesOf_foldl {ms : List Marker} {xs : List Note} {t : RulesByLine} {rule : Text}
    {n : Nat} : n ∈ (xs.foldl (fun t x => addWhen ms x t) t).linesOf rule ↔
      n ∈ t.linesOf rule ∨
        ∃ x ∈ xs, x.line = n ∧ rule ∈ x.ids.elems ∧ ∃ m ∈ ms, m ∈ x.markers := by
  induction xs generalizing t with
  | nil => simp
  | cons x xs ih =>
    have hany : x.markers.any ms.contains = true ↔ ∃ m ∈ ms, m ∈ x.markers := by
      simp [and_comm]
    rw [List.foldl_cons, ih]
    simp only [addWhen, List.exists_mem_cons_iff]
    by_cases h : x.markers.any ms.contains = true
    · rw [if_pos h, RulesByLine.mem_linesOf_add, or_assoc, and_iff_left (hany.1 h)]
    · rw [if_neg h]
      simp only [mt hany.2 h, and_false, false_or]

/-- A table that collects the notes with some markers holds what is announced under them. -/
theorem mem_linesOf_notes (ms : List Marker) (text : Text) {rule : Text} {n : Nat} :
    n ∈ ((notes text).foldl (fun t x => addWhen ms x t) .empty).linesOf rule ↔
      ∃ m ∈ ms, Marks text m rule n := by
  rw [mem_linesOf_foldl]
  have hempty : n ∉ RulesByLine.linesOf .empty rule := by simp [RulesByLine.mem_linesOf]
  simp only [hempty, false_or, notes, mem_notesFrom, note?_eq_some_iff, Nat.zero_add, Marks]
  constructor
  · rintro ⟨x, ⟨i, line, hline, -, hcolon, ids, hids, rfl⟩, rfl, hrule, m, hm, hmem⟩
    exact ⟨m, hm, i, line, hline, rfl, Marker.mem_ofLine.1 hmem, hcolon, ids, hids, hrule⟩
  · rintro ⟨m, hm, i, line, hline, rfl, hmem, hcolon, ids, hids, hrule⟩
    have hmem' := Marker.mem_ofLine.2 hmem
    exact ⟨_, ⟨i, line, hline, List.ne_nil_of_mem hmem', hcolon, ids, hids, rfl⟩, rfl, hrule, m,
      hm, hmem'⟩

/-- Each note goes into the tables one by one, whatever the other tables are. -/
theorem foldl_record (xs : List Note) (a : Annotations) :
    xs.foldl record a =
      ⟨xs.foldl (fun t x => addWhen [.ruleId, .todoRuleId] x t) a.expected,
        xs.foldl (fun t x => addWhen [.ok, .todoRuleId] x t) a.ok,
        xs.foldl (fun t x => addWhen [.todoOk] x t) a.todoOk,
        xs.foldl (fun t x => addWhen [.todoRuleId] x t) a.todoExpected⟩ := by
  induction xs generalizing a with
  | nil => rfl
  | cons x xs ih => rw [List.foldl_cons, ih]; rfl

variable {text rule : Text} {n : Nat}

/-- **Expected lines** are announced by `ruleid` or by `todoruleid`. -/
theorem mem_expected_ofText : n ∈ (ofText text).expected.linesOf rule ↔
    Marks text .ruleId rule n ∨ Marks text .todoRuleId rule n := by
  simpa [ofText, foldl_record, none] using
    mem_linesOf_notes [.ruleId, .todoRuleId] text

/-- **Fine lines** are announced by `ok` or by `todoruleid`. -/
theorem mem_ok_ofText : n ∈ (ofText text).ok.linesOf rule ↔
    Marks text .ok rule n ∨ Marks text .todoRuleId rule n := by
  simpa [ofText, foldl_record, none] using
    mem_linesOf_notes [.ok, .todoRuleId] text

theorem mem_todoOk_ofText :
    n ∈ (ofText text).todoOk.linesOf rule ↔ Marks text .todoOk rule n := by
  simpa [ofText, foldl_record, none] using mem_linesOf_notes [.todoOk] text

theorem mem_todoExpected_ofText :
    n ∈ (ofText text).todoExpected.linesOf rule ↔ Marks text .todoRuleId rule n := by
  simpa [ofText, foldl_record, none] using mem_linesOf_notes [.todoRuleId] text

theorem mem_tested {a : Annotations} : rule ∈ a.tested.elems ↔
    (∃ n, n ∈ a.expected.linesOf rule) ∨ ∃ n, n ∈ a.ok.linesOf rule := by
  rw [tested, OrderedSet.mem_union, RulesByLine.mem_rules, RulesByLine.mem_rules]

theorem not_mem_tested_none (rule : Text) : rule ∉ none.tested.elems := by
  simp [mem_tested, none, RulesByLine.mem_linesOf]

/-- **The rules that a fixture exercises** are those announced by any marker but `todook`. -/
theorem mem_tested_ofText :
    rule ∈ (ofText text).tested.elems ↔ ∃ m n, m ≠ .todoOk ∧ Marks text m rule n := by
  simp only [mem_tested, mem_expected_ofText, mem_ok_ofText]
  constructor
  · rintro (⟨n, h | h⟩ | ⟨n, h | h⟩)
    · exact ⟨.ruleId, n, by simp, h⟩
    · exact ⟨.todoRuleId, n, by simp, h⟩
    · exact ⟨.ok, n, by simp, h⟩
    · exact ⟨.todoRuleId, n, by simp, h⟩
  · rintro ⟨m, n, hm, h⟩
    cases m with
    | ruleId => exact .inl ⟨n, .inl h⟩
    | todoRuleId => exact .inl ⟨n, .inr h⟩
    | ok => exact .inr ⟨n, .inl h⟩
    | todoOk => exact absurd rfl hm

end Annotations

end RuleAudit
