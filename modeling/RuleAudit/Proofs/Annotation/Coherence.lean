import RuleAudit.Proofs.Annotation.Ids
import RuleAudit.Proofs.Annotation.Lines

/-!
# The tables of a fixture belong together

The four tables are filled from one and the same line for each number, so they never disagree on the ids of
a line that several of them hold. A line that is wanted but known to be missing stands in three of them; that
is why the expected lines without the lines to be done are those that are announced by `ruleid` alone.
-/

namespace RuleAudit.Annotations

open Annotation (Names parseIds)

/-- A line of a text announces the line numbered `n`: it has index `n - 2`. -/
def Announces (text line : Text) (n : Nat) : Prop :=
  ∃ i, (Text.splitOn '\n' text)[i]? = some line ∧ n = i + 2

variable {text line line' : Text} {n : Nat} {ids ids' : OrderedSet Text}
  {table table' : Annotations → RulesByLine}

/-! ## The announcing line -/

/-- Each number is announced by one line at most. -/
theorem Announces.unique (h : Announces text line n) (h' : Announces text line' n) : line = line' := by
  obtain ⟨i, hline, rfl⟩ := h
  obtain ⟨j, hline', hij⟩ := h'
  obtain rfl : i = j := by omega
  exact Option.some.inj (hline.symm.trans hline')

/-- A line that is not empty is counted, whether or not an empty last line is. -/
theorem Announces.bounds (h : Announces text line n) (hne : line ≠ []) :
    2 ≤ n ∧ n ≤ (Text.splitOn '\n' text).length + 1 ∧ n ≤ (Text.linesKept text).length + 1 := by
  obtain ⟨i, hline, rfl⟩ := h
  have hpiece : i < (Text.splitOn '\n' text).length := (List.getElem?_eq_some_iff.1 hline).1
  have hkept : i < (Text.linesKept text).length := by
    by_contra hge
    exact hne (Text.eq_nil_of_length_linesKept_le (Nat.not_lt.1 hge) hline)
  omega

/-- **What a table holds** at a line number: the ids of the announcing line, if that line carries one of the
markers of the table. -/
theorem get?_tableFrom_eq_some_iff {ms : List Marker} :
    (tableFrom ms 0 (Text.splitOn '\n' text) .empty).get? n = some ids ↔
      ∃ line, Announces text line n ∧ (∃ m ∈ ms, m.occursIn line = true) ∧ ':' ∈ line ∧
        parseIds line = .ok ids := by
  constructor
  · intro hget
    have hle : 2 ≤ n := by
      by_contra hlt
      rw [get?_tableFrom_of_lt (Nat.not_le.1 hlt)] at hget
      cases hget
    obtain ⟨i, rfl⟩ := Nat.exists_eq_add_of_le' hle
    rw [get?_tableFrom_empty, Option.bind_eq_some_iff] at hget
    obtain ⟨line, hline, hids⟩ := hget
    exact ⟨line, ⟨i, hline, rfl⟩, idsUnder_eq_some_iff.1 hids⟩
  · rintro ⟨line, ⟨i, hline, rfl⟩, hids⟩
    rw [get?_tableFrom_empty, hline, Option.bind_some]
    exact idsUnder_eq_some_iff.2 hids

/-- Whatever the table, the ids that it holds at a line number are those of the announcing line. -/
theorem exists_announces_of_get? (htable : table ∈ tables)
    (hget : (table (ofText text)).get? n = some ids) :
    ∃ line, Announces text line n ∧ ':' ∈ line ∧ parseIds line = .ok ids := by
  obtain ⟨ms, hms⟩ := exists_markers_of_mem htable
  rw [hms, get?_tableFrom_eq_some_iff] at hget
  obtain ⟨line, hline, -, hnames⟩ := hget
  exact ⟨line, hline, hnames⟩

/-- The line numbers of a table are those announced under one of its markers by a line that names ids. -/
theorem mem_keys_tableFrom {ms : List Marker} :
    n ∈ (tableFrom ms 0 (Text.splitOn '\n' text) .empty).keys ↔
      ∃ line, Announces text line n ∧ (∃ m ∈ ms, m.occursIn line = true) ∧ ':' ∈ line ∧
        ∃ ids, parseIds line = .ok ids := by
  simp only [OrderedMap.mem_keys_iff, Option.isSome_iff_exists, get?_tableFrom_eq_some_iff]
  constructor
  · rintro ⟨ids, line, hline, hmarked, hcolon, hparse⟩
    exact ⟨line, hline, hmarked, hcolon, ids, hparse⟩
  · rintro ⟨line, hline, hmarked, hcolon, ids, hparse⟩
    exact ⟨ids, line, hline, hmarked, hcolon, hparse⟩

/-! ## All tables -/

/-- How the tables of a text belong together. -/
structure Coherent (text : Text) (a : Annotations) : Prop where
  /-- Line numbers start behind the first line of the text and end behind its last one, whether or not an
  empty last line is counted. -/
  bounds : ∀ table ∈ tables, ∀ n ∈ (table a).keys,
    2 ≤ n ∧ n ≤ (Text.splitOn '\n' text).length + 1 ∧ n ≤ (Text.linesKept text).length + 1
  nonempty : ∀ table ∈ tables, ∀ n ids, (table a).get? n = some ids → ids.elems ≠ []
  agree : ∀ table ∈ tables, ∀ table' ∈ tables, ∀ n ids ids',
    (table a).get? n = some ids → (table' a).get? n = some ids' → ids = ids'
  /-- A finding that is known to be missing is expected, and the line is fine without it. -/
  todo : ∀ n ∈ a.todoExpected.keys, n ∈ a.expected.keys ∧ n ∈ a.ok.keys
  /-- All other lines that are both expected and fine are announced twice by their line. -/
  both : ∀ n, n ∈ a.expected.keys → n ∈ a.ok.keys → n ∉ a.todoExpected.keys →
    ∃ line, Announces text line n ∧ Marker.ruleId.occursIn line = true ∧ Marker.ok.occursIn line = true

/-- A line number that is expected and fine, but not known to lack its finding. -/
theorem occursIn_of_expected_ok (hexpected : n ∈ (ofText text).expected.keys)
    (hok : n ∈ (ofText text).ok.keys) (htodo : n ∉ (ofText text).todoExpected.keys) :
    ∃ line, Announces text line n ∧ Marker.ruleId.occursIn line = true ∧
      Marker.ok.occursIn line = true := by
  rw [ofText_eq] at hexpected hok htodo
  obtain ⟨line, hline, ⟨m, hm, hmarked⟩, hcolon, hparse⟩ := mem_keys_tableFrom.1 hexpected
  obtain ⟨line', hline', ⟨m', hm', hmarked'⟩, -⟩ := mem_keys_tableFrom.1 hok
  obtain rfl := hline.unique hline'
  have hnot : Marker.todoRuleId.occursIn line ≠ true := by
    intro hmarked
    apply htodo
    apply mem_keys_tableFrom.2
    exact ⟨line, hline, ⟨_, List.mem_singleton_self _, hmarked⟩, hcolon, hparse⟩
  -- Of the two markers of each table only the one that is no `todoruleid` is left.
  rcases List.mem_pair.1 hm with rfl | rfl
  · rcases List.mem_pair.1 hm' with rfl | rfl
    · exact ⟨line, hline, hmarked, hmarked'⟩
    · exact absurd hmarked' hnot
  · exact absurd hmarked hnot

/-- Expected lines of a rule that are not to be done are announced by `ruleid` and not by `todoruleid`. -/
theorem mem_expected_diff_todo {rule : Text} :
    (n ∈ (ofText text).expected.linesOf rule ∧ n ∉ (ofText text).todoExpected.linesOf rule) ↔
      ∃ line, Announces text line n ∧ Marker.ruleId.occursIn line = true ∧
        Marker.todoRuleId.occursIn line = false ∧ Names line rule := by
  have hmarks : ∀ m, Marks text m rule n ↔
      ∃ line, Announces text line n ∧ m.occursIn line = true ∧ Names line rule := by
    intro m
    constructor
    · rintro ⟨i, line, hline, hn, hmarked, hnames⟩
      exact ⟨line, ⟨i, hline, hn⟩, hmarked, hnames⟩
    · rintro ⟨line, ⟨i, hline, hn⟩, hmarked, hnames⟩
      exact ⟨i, line, hline, hn, hmarked, hnames⟩
  rw [mem_expected_ofText, mem_todoExpected_ofText, hmarks, hmarks]
  constructor
  · rintro ⟨hexpected, hnot⟩
    obtain ⟨line, hline, hmarked, hnames⟩ := hexpected.resolve_right hnot
    refine ⟨line, hline, hmarked, ?_, hnames⟩
    rw [Bool.eq_false_iff]
    intro htodo
    exact hnot ⟨line, hline, htodo, hnames⟩
  · rintro ⟨line, hline, hmarked, htodo, hnames⟩
    refine ⟨.inl ⟨line, hline, hmarked, hnames⟩, ?_⟩
    rintro ⟨line', hline', htodo', -⟩
    obtain rfl := hline.unique hline'
    rw [htodo] at htodo'
    cases htodo'

/-- **The tables of a text belong together**: their lines are announced by lines of the text and have ids, on
which all tables agree, and a line is expected and fine at the same time only if it is known to lack its
finding or is announced as both. So the expected lines of a rule, without those to be done, are the ones that
`ruleid` announces and `todoruleid` does not. -/
theorem coherent_ofText (text : Text) :
    Coherent text (ofText text) ∧
      ∀ rule n,
        (n ∈ (ofText text).expected.linesOf rule ∧ n ∉ (ofText text).todoExpected.linesOf rule) ↔
          ∃ line, Announces text line n ∧ Marker.ruleId.occursIn line = true ∧
            Marker.todoRuleId.occursIn line = false ∧ Names line rule := by
  refine ⟨⟨?bounds, ?nonempty, ?agree, ?todo, ?both⟩, fun rule n => mem_expected_diff_todo⟩
  case bounds =>
    intro table htable n hn
    obtain ⟨ids, hget⟩ := Option.isSome_iff_exists.1 (OrderedMap.mem_keys_iff.1 hn)
    obtain ⟨line, hline, hcolon, -⟩ := exists_announces_of_get? htable hget
    exact hline.bounds (List.ne_nil_of_mem hcolon)
  case nonempty =>
    intro table htable n ids hget
    obtain ⟨line, -, -, hparse⟩ := exists_announces_of_get? htable hget
    exact Annotation.elems_ne_nil_of_parseIds hparse
  case agree =>
    intro table htable table' htable' n ids ids' hget hget'
    obtain ⟨line, hline, -, hparse⟩ := exists_announces_of_get? htable hget
    obtain ⟨line', hline', -, hparse'⟩ := exists_announces_of_get? htable' hget'
    obtain rfl := hline.unique hline'
    exact Except.ok.inj (hparse.symm.trans hparse')
  case todo =>
    intro n hn
    rw [ofText_eq] at hn ⊢
    obtain ⟨line, hline, ⟨m, hm, hmarked⟩, hnames⟩ := mem_keys_tableFrom.1 hn
    obtain rfl := List.mem_singleton.1 hm
    constructor
    · exact mem_keys_tableFrom.2 ⟨line, hline, ⟨_, by simp, hmarked⟩, hnames⟩
    · exact mem_keys_tableFrom.2 ⟨line, hline, ⟨_, by simp, hmarked⟩, hnames⟩
  case both =>
    intro n hexpected hok htodo
    exact occursIn_of_expected_ok hexpected hok htodo

/-- One line under two markers, and one under three of them: only the second is to be done. -/
example :
    let a := ofText "# ruleid # ok: a\n// todoruleid <!--ok (* ruleid: b, a *)".toList
    a.expected.keys = [2, 3] ∧ a.ok.keys = [2, 3] ∧ a.todoExpected.keys = [3] ∧
      a.expected.linesOf ['a'] = [2, 3] ∧ a.todoExpected.linesOf ['a'] = [3] := by
  decide

end RuleAudit.Annotations
