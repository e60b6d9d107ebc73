import RuleAudit.Proofs.Annotation.Writing

/-!
# Annotations and line endings

Blanks at the end of a line make no difference to what it announces: no marker ends in a blank, a blank is
no colon, and the blanks are trimmed away before the ids are read. A carriage return is a blank, so a text
has the same tables whether its lines end in a newline or in a carriage return and a newline.
-/

namespace RuleAudit

/-! ## Blanks behind a line -/

namespace Marker

/-- A marker stands in a line where its word follows an opener, with at most one blank between them. -/
theorem occursIn_iff {m : Marker} {s : Text} : m.occursIn s = true ↔
    ∃ opener ∈ openers, ∃ gap, (gap = [] ∨ gap = [' ']) ∧ opener ++ gap ++ m.word <:+: s := by
  constructor
  · intro h
    induction s with
    | nil => cases h
    | cons c rest ih =>
      rw [occursIn, Bool.or_eq_true] at h
      cases h with
      | inl hopens =>
        obtain ⟨opener, hopener, hprefix⟩ := List.any_eq_true.1 hopens
        rw [Bool.or_eq_true, List.isPrefixOf_iff_prefix, List.isPrefixOf_iff_prefix] at hprefix
        cases hprefix with
        | inl hword => exact ⟨opener, hopener, [], .inl rfl, by simpa using hword.isInfix⟩
        | inr hword => exact ⟨opener, hopener, [' '], .inr rfl, by simpa using hword.isInfix⟩
      | inr hrest =>
        obtain ⟨opener, hopener, gap, hgap, hword⟩ := ih hrest
        exact ⟨opener, hopener, gap, hgap, List.infix_cons hword⟩
  · rintro ⟨opener, hopener, gap, hgap, before, after, rfl⟩
    rw [List.append_assoc before]
    exact occursIn_append before (opens_append hopener hgap after)

/-- The word of a marker ends in a letter. -/
theorem exists_word_eq (m : Marker) :
    ∃ (init : Text) (last : Char), m.word = init ++ [last] ∧ Text.isBlank last = false := by
  cases m with
  | ruleId => exact ⟨"rulei".toList, 'd', rfl, by decide⟩
  | todoRuleId => exact ⟨"todorulei".toList, 'd', rfl, by decide⟩
  | ok => exact ⟨"o".toList, 'k', rfl, by decide⟩
  | todoOk => exact ⟨"todoo".toList, 'k', rfl, by decide⟩

/-- **Blanks behind a line** bring no marker about: a marker does not end in a blank, so that one in the
longer line stands in the line itself. -/
theorem occursIn_append_blank {right : Text} (h : Text.Blank right) (m : Marker) (line : Text) :
    m.occursIn (line ++ right) = m.occursIn line := by
  obtain ⟨init, last, hword, hlast⟩ := m.exists_word_eq
  rw [Bool.eq_iff_iff, occursIn_iff, occursIn_iff]
  constructor
  · rintro ⟨opener, hopener, gap, hgap, hinfix⟩
    refine ⟨opener, hopener, gap, hgap, ?_⟩
    rw [hword, ← List.append_assoc] at hinfix ⊢
    by_contra hnot
    exact Text.not_infix_append hnot (h.not_mem hlast) hinfix
  · rintro ⟨opener, hopener, gap, hgap, hinfix⟩
    exact ⟨opener, hopener, gap, hgap, hinfix.trans (List.prefix_append line right).isInfix⟩

end Marker

namespace Annotations

open Annotation (parseIds IdShape)

/-- Blanks behind a line do not change what it contributes to a table. -/
theorem idsUnder_append_blank {right : Text} (h : Text.Blank right) (ms : List Marker) (line : Text) :
    idsUnder ms (line ++ right) = idsUnder ms line := by
  have hmarkers : Marker.ofLine (line ++ right) = Marker.ofLine line := by
    simp only [Marker.ofLine, Marker.occursIn_append_blank h]
  have hcolon : (line ++ right).contains ':' = line.contains ':' := by
    have hnone : ':' ∉ right := h.not_mem (by decide)
    simp [hnone]
  have hparse : parseIds (line ++ right) = parseIds line := by
    have htrim : Text.trim (line ++ right) = Text.trim line := Text.trim_padded Text.blank_nil h line
    rw [parseIds, htrim, ← parseIds]
  rw [idsUnder, hmarkers, hcolon, hparse, ← idsUnder]

/-- The ids of a table have the shape of ids and are made of characters of the text. -/
theorem idShape_of_mem_entries {table : Annotations → RulesByLine} (h : table ∈ tables) {text : Text}
    {e : Nat × OrderedSet Text} (he : e ∈ (table (ofText text)).entries) {id : Text}
    (hid : id ∈ e.2.elems) : IdShape id ∧ ∀ c ∈ id, c ∈ text := by
  obtain ⟨ms, htable⟩ := exists_markers_of_mem h
  rw [htable, entries_tableFrom_empty] at he
  obtain ⟨x, hx, he⟩ := List.mem_filterMap.1 he
  obtain ⟨ids, hids, rfl⟩ := Option.map_eq_some_iff.1 he
  obtain ⟨line, hline, hx⟩ := List.mem_map.1 (List.fst_mem_of_mem_zipIdx hx)
  obtain ⟨-, hcolon, hparse⟩ := idsUnder_eq_some_iff.1 (hx.trans hids)
  obtain ⟨hshape, hmem⟩ := Annotation.idShape_of_names ⟨hcolon, ids, hparse, hid⟩
  exact ⟨hshape, fun c hc => Text.mem_of_mem_splitOn hline (hmem c hc)⟩

/-! ## Carriage returns -/

/-- A carriage return before each newline stands behind the lines, where it makes no difference. -/
theorem ofText_replaceAll_newline (text : Text) :
    ofText (Text.replaceAll ['\n'] ['\r', '\n'] text) = ofText text := by
  obtain ⟨init, last, hlines, hreturned⟩ :=
    @Text.splitOn_replaceAll_sep '\n' ['\r'] (by decide) text
  apply ofText_congr
  intro ms
  rw [List.singleton_append] at hreturned
  rw [hlines, hreturned, List.map_append, List.map_append, List.map_map]
  congr 1
  exact List.map_congr_left fun line _ => idsUnder_append_blank (by decide) ms line

/-- **Line endings make no difference.** A text has the same tables with a carriage return before each of
its newlines, and no id begins or ends with a carriage return, or has one in it that does not stand in the
text itself. -/
theorem ofText_with_returns (text : Text) :
    let returned := Text.replaceAll ['\n'] ['\r', '\n'] text
    ofText returned = ofText text ∧
      ∀ table ∈ tables, ∀ e ∈ (table (ofText returned)).entries, ∀ id ∈ e.2.elems,
        id.head? ≠ some '\r' ∧ id.getLast? ≠ some '\r' ∧ ('\r' ∈ id → '\r' ∈ text) := by
  intro returned
  have hsame : ofText returned = ofText text := ofText_replaceAll_newline text
  refine ⟨hsame, fun table htable e he id hid => ?_⟩
  rw [hsame] at he
  obtain ⟨hshape, hmem⟩ := idShape_of_mem_entries htable he hid
  have hblank : Text.isBlank '\r' = true := by decide
  refine ⟨fun hhead => ?_, fun hlast => ?_, hmem '\r'⟩
  · simp [hshape.trimmed.1 '\r' hhead] at hblank
  · simp [hshape.trimmed.2 '\r' hlast] at hblank

/-- A return next to a closing token, one behind an empty list of ids, and one that was there before. -/
theorem ofText_with_returns_mixed :
    let text : Text := "<!-- ruleid: a -->\n# ok: ,\n// todoruleid: b\r\n#ok:c".toList
    let returned : Text :=
      "<!-- ruleid: a -->\r\n# ok: ,\r\n// todoruleid: b\r\r\n#ok:c".toList
    ofText returned = ofText text ∧
      (2, OrderedSet.ofList ["a".toList]) ∈ (ofText returned).expected.entries ∧
      ("a".toList : Text).getLast? ≠ some '\r' := by
  intro text returned
  have hreturned : Text.replaceAll ['\n'] ['\r', '\n'] text = returned := by decide
  obtain ⟨hsame, hids⟩ := ofText_with_returns text
  rw [hreturned] at hsame hids
  have hmem : (2, OrderedSet.ofList ["a".toList]) ∈ (ofText returned).expected.entries := by decide
  exact ⟨hsame, hmem, (hids expected (by simp [tables]) _ hmem _ (by decide)).2.1⟩

end Annotations

end RuleAudit
