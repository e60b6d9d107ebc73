import RuleAudit.Proofs.Annotation.Lines
import RuleAudit.Proofs.Text.Pieces

/-!
# Annotations are local to their lines

Each line of a fixture is read by itself, and only its number depends on the lines before it. So the tables
of a text that is put together from two parts are the tables of the parts, those of the second one moved
down by the lines of the first. A line that names no ids is as good as an empty one.
-/

namespace RuleAudit.Annotations

open Annotation (parseIds)

variable {table : Annotations → RulesByLine}

/-! ## Two parts of a text -/

/-- The entries for the second part follow those for the first one, moved down by the lines of the first. -/
theorem entries_append_newline (h : table ∈ tables) (above below : Text) :
    (table (ofText (above ++ '\n' :: below))).entries = (table (ofText above)).entries ++
      (table (ofText below)).entries.map (furtherDown (above.count '\n' + 1)) := by
  obtain ⟨ms, htable⟩ := exists_markers_of_mem h
  rw [htable, htable, htable, entries_tableFrom_empty, entries_tableFrom_empty,
    entries_tableFrom_empty, Text.splitOn_append_cons, List.map_append, entriesFrom_append,
    List.length_map, Text.length_splitOn, ← entriesFrom_add]
  simp

/-- What is announced by a text is no further down than its lines reach. -/
theorem line_of_mem_entries (h : table ∈ tables) {text : Text} {e : Nat × OrderedSet Text}
    (he : e ∈ (table (ofText text)).entries) : 2 ≤ e.1 ∧ e.1 ≤ text.count '\n' + 2 := by
  obtain ⟨ms, htable⟩ := exists_markers_of_mem h
  rw [htable, entries_tableFrom_empty] at he
  have hline := line_of_mem_entriesFrom he
  rw [List.length_map, Text.length_splitOn] at hline
  omega

/-- Of two parts of a text, neither announces a line that the other one announces. -/
theorem disjoint_parts (h : table ∈ tables) (above below : Text) :
    ((table (ofText above)).entries.map (·.1)).Disjoint
      (((table (ofText below)).entries.map (furtherDown (above.count '\n' + 1))).map (·.1)) := by
  intro n hupper hlower
  obtain ⟨e, he, rfl⟩ := List.mem_map.1 hupper
  simp only [List.map_map, List.mem_map, Function.comp_apply, furtherDown] at hlower
  obtain ⟨e', he', heq⟩ := hlower
  have hup := line_of_mem_entries h he
  have hdown := line_of_mem_entries h he'
  omega

/-! ## One line of a text -/

variable {before line after : Text}

/-- What a line announces is found behind as many lines as there are newlines before it. -/
theorem get?_of_lineBetween (h : table ∈ tables) (hline : Text.LineBetween before line after) :
    (table (ofText (before ++ line ++ after))).get? (before.count '\n' + 2) =
      (table (ofText line)).get? 2 := by
  obtain ⟨ms, htable⟩ := exists_markers_of_mem h
  obtain ⟨upper, lower, hlength, hsplit⟩ := hline.exists_splitOn
  have hat : (upper ++ line :: lower)[upper.length]? = some line := by simp
  rw [htable, htable, hsplit line hline.single, Text.splitOn_of_not_mem hline.single, ← hlength]
  calc (tableFrom ms 0 (upper ++ line :: lower) .empty).get? (upper.length + 2)
      = idsUnder ms line := by rw [get?_tableFrom_empty, hat, Option.bind_some]
    _ = (tableFrom ms 0 [line] .empty).get? (0 + 2) := (get?_tableFrom_empty ms [line] 0).symm

/-- A line that names no ids is as good as an empty one. -/
theorem ofText_of_unparsed (hline : Text.LineBetween before line after)
    (h : ∀ ids, parseIds line ≠ .ok ids) : ofText (before ++ line ++ after) = ofText (before ++ after) := by
  obtain ⟨upper, lower, -, hsplit⟩ := hline.exists_splitOn
  have hempty := hsplit [] List.not_mem_nil
  rw [List.append_nil] at hempty
  have hnone : ∀ ms line', (∀ ids, parseIds line' ≠ .ok ids) → idsUnder ms line' = Option.none := by
    intro ms line' hunparsed
    rw [Option.eq_none_iff_forall_ne_some]
    intro ids hids
    exact hunparsed ids (idsUnder_eq_some_iff.1 hids).2.2
  apply ofText_congr
  intro ms
  rw [hsplit line hline.single, hempty]
  simp [hnone ms line h, hnone ms [] (fun ids => by simp [parseIds, Text.splitFirst?])]

/-! ## All parts -/

/-- **Tables are put together from those of the parts of a text.** A newline between two parts makes each
table the disjoint union of the tables of the parts, with the lines of the second part moved down by those
of the first. So what a line announces depends on the line alone, and the number of what it announces on the
number of newlines before it; and a line that names no ids changes nothing wherever it stands. -/
theorem tables_of_parts :
    (∀ above below : Text, ∀ table ∈ tables,
      let upper := (table (ofText above)).entries
      let lower := (table (ofText below)).entries.map (furtherDown (above.count '\n' + 1))
      (table (ofText (above ++ '\n' :: below))).entries = upper ++ lower ∧
        (upper.map (·.1)).Disjoint (lower.map (·.1))) ∧
    ∀ before line after : Text, Text.LineBetween before line after →
      (∀ table ∈ tables,
        (table (ofText (before ++ line ++ after))).get? (before.count '\n' + 2) =
          (table (ofText line)).get? 2) ∧
      ((∀ ids, parseIds line ≠ .ok ids) →
        ofText (before ++ line ++ after) = ofText (before ++ after)) := by
  constructor
  · intro above below table htable
    exact ⟨entries_append_newline htable above below, disjoint_parts htable above below⟩
  · intro before line after hline
    exact ⟨fun table htable => get?_of_lineBetween htable hline, ofText_of_unparsed hline⟩

/-- An annotation without ids between two annotations, the second of which keeps its number. -/
theorem tables_of_parts_around_empty_list :
    let before : Text := "x\n# todoruleid: a\n".toList
    let line : Text := "# ruleid: , -->".toList
    let after : Text := "\n\n// todook: a, b\r\ny".toList
    Text.LineBetween before line after ∧ (∀ ids, parseIds line ≠ .ok ids) ∧
      ofText (before ++ line ++ after) = ofText (before ++ after) ∧
      (∀ table ∈ tables, (table (ofText (before ++ line ++ after))).get? 4 = Option.none) ∧
      (ofText (before ++ line ++ after)).todoOk.entries =
        (ofText before).todoOk.entries ++
          (ofText (line ++ after)).todoOk.entries.map (furtherDown 2) ∧
      (ofText (before ++ line ++ after)).todoOk.get? 6 =
        some (OrderedSet.ofList ["a".toList, "b".toList]) := by
  intro before line after
  have hline : Text.LineBetween before line after := ⟨by decide, by decide, by decide⟩
  have hunparsed : ∀ ids, parseIds line ≠ .ok ids := by
    have herror : parseIds line = .error .noRuleIds := by decide
    simp [herror]
  obtain ⟨hparts, hlines⟩ := tables_of_parts
  obtain ⟨hget, hsame⟩ := hlines before line after hline
  refine ⟨hline, hunparsed, hsame hunparsed, fun table htable => ?_, ?_, by decide⟩
  · rw [show 4 = before.count '\n' + 2 from rfl, hget table htable]
    revert table
    decide
  · exact (hparts "x\n# todoruleid: a".toList (line ++ after) todoOk (by simp [tables])).1

end RuleAudit.Annotations
