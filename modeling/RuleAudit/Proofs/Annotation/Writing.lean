import RuleAudit.Proofs.Annotation.Ids
import RuleAudit.Proofs.Annotation.Lines
import RuleAudit.Proofs.Text.Removal

/-!
# Writing annotations

An annotation is written as a comment: an opener, the word of a marker, a colon and the ids between
commas, each with blanks around it and perhaps a token that closes the comment behind it. Reading gives
the ids back, whatever stands before the comment and between the marker and the colon, provided that
the ids have the shape of ids and no closing token stands inside them.
-/

namespace RuleAudit

/-! ## Markers -/

namespace Marker

theorem opens_append {m : Marker} {opener gap : Text} (hopener : opener ∈ openers)
    (hgap : gap = [] ∨ gap = [' ']) (rest : Text) :
    m.opens (opener ++ gap ++ m.word ++ rest) = true := by
  refine List.any_eq_true.2 ⟨opener, hopener, ?_⟩
  obtain rfl | rfl := hgap <;> simp

theorem occursIn_append {m : Marker} (before : Text) {s : Text} (h : m.opens s = true) :
    m.occursIn (before ++ s) = true := by
  induction before with
  | nil =>
    cases s with
    | nil => exact absurd h (by cases m <;> decide)
    | cons c rest => simp [occursIn, h]
  | cons c before ih => simp [occursIn, ih]

end Marker

namespace Annotation

/-! ## One id -/

/-- A piece between commas spells an id: blanks stand around the id, and at most one closing token
stands behind it. -/
inductive Spells (id : Text) : Text → Prop where
  | bare {left right : Text} (hleft : Text.Blank left) (hright : Text.Blank right) :
    Spells id (left ++ id ++ right)
  | closed {left right closer more : Text} (hleft : Text.Blank left) (hright : Text.Blank right)
    (hcloser : closer ∈ closers) (hmore : Text.Blank more) :
    Spells id (left ++ (id ++ right ++ closer) ++ more)

theorem noClosers_iff {id : Text} : NoClosers id ↔ ∀ closer ∈ closers, ¬ closer <:+: id := by
  simp only [NoClosers, Bool.eq_false_iff, ne_eq, Text.hasInfix_iff]

/-- Closing tokens are removed one after the other, with the blanks at the ends trimmed away each time. -/
theorem cleanId_eq (piece : Text) :
    cleanId piece = Text.trim (Text.replaceAll ['*', ')'] []
      (Text.trim (Text.replaceAll ['-', '-', '>'] [] (Text.trim piece)))) := by
  simp only [cleanId, closers, List.foldl_cons, List.foldl_nil]

/-- Cleaning begins with trimming. -/
theorem cleanId_trim (piece : Text) : cleanId (Text.trim piece) = cleanId piece := by
  rw [cleanId_eq, cleanId_eq, Text.trim_trim]

/-- A token behind an id and blanks is removed, and then the blanks are trimmed away. -/
theorem trim_removal_closer {id right init : Text} {last : Char} (hclosers : NoClosers id)
    (hcloser : init ++ [last] ∈ closers) (hlast : last ∉ init) (hblank : Text.isBlank last = false)
    (hright : Text.Blank right) (htrim : Text.Trimmed id) :
    Text.trim (Text.replaceAll (init ++ [last]) [] (id ++ right ++ (init ++ [last]))) = id := by
  have hnot : ¬ init ++ [last] <:+: id ++ right :=
    Text.not_infix_append (noClosers_iff.1 hclosers _ hcloser) (hright.not_mem hblank)
  rw [Text.removal_append_self hlast hnot]
  simpa [Text.trim_eq_self_iff.2 htrim] using Text.trim_padded Text.blank_nil hright id

/-- The id with a closing token has no blanks at its ends. -/
theorem trim_closed {id right init : Text} {last : Char} (hblank : Text.isBlank last = false)
    (hshape : IdShape id) :
    Text.trim (id ++ right ++ (init ++ [last])) = id ++ right ++ (init ++ [last]) := by
  obtain ⟨first, rest, rfl⟩ := List.exists_cons_of_ne_nil hshape.nonempty
  refine Text.trim_eq_self_iff.2 ⟨?_, ?_⟩
  · simpa using hshape.trimmed.1
  · rw [← List.append_assoc, List.getLast?_concat]
    simpa using hblank

/-- **The id is found in a piece that spells it.** -/
theorem cleanId_of_spells {id piece : Text} (hshape : IdShape id) (hclosers : NoClosers id)
    (h : Spells id piece) : cleanId piece = id := by
  have htrim : Text.trim id = id := Text.trim_eq_self_iff.2 hshape.trimmed
  have hself : cleanId id = id := cleanId_eq_self hshape.trimmed hclosers
  cases h with
  | bare hleft hright => rw [← cleanId_trim, Text.trim_padded hleft hright, cleanId_trim, hself]
  | @closed left right closer more hleft hright hcloser hmore =>
    rw [← cleanId_trim, Text.trim_padded hleft hmore, cleanId_trim, cleanId_eq]
    have hcases : closer = ['-', '-'] ++ ['>'] ∨ closer = ['*'] ++ [')'] := by
      simpa [closers] using hcloser
    obtain rfl | rfl := hcases
    · -- The first removal gives the id, and the second one finds nothing in it.
      have hnone : Text.replaceAll ['*', ')'] [] id = id :=
        Text.replaceAll_eq_self (by decide) (hclosers _ (by decide))
      rw [trim_closed (by decide) hshape,
        show ['-', '-', '>'] = ['-', '-'] ++ ['>'] from rfl,
        trim_removal_closer hclosers hcloser (by decide) (by decide) hright hshape.trimmed, hnone,
        htrim]
    · -- The first removal finds nothing, since no part of its token can belong to the other one.
      have hnot : ¬ ['-', '-'] ++ ['>'] <:+: id ++ right ++ (['*'] ++ [')']) := by
        refine Text.not_infix_append (Text.not_infix_append ?_ ?_) (by decide)
        · exact noClosers_iff.1 hclosers _ (by decide)
        · exact hright.not_mem (by decide)
      have hnone : Text.replaceAll ['-', '-', '>'] [] (id ++ right ++ (['*'] ++ [')'])) =
          id ++ right ++ (['*'] ++ [')']) :=
        Text.replaceAll_eq_self (by decide) (Bool.eq_false_iff.2 fun h => hnot (Text.hasInfix_iff.1 h))
      rw [trim_closed (by decide) hshape, hnone, trim_closed (by decide) hshape]
      exact trim_removal_closer hclosers hcloser (by decide) (by decide) hright hshape.trimmed

/-! ## The ids of a line -/

/-- Pieces are cleaned one by one; blanks at the ends of the text make no difference. -/
theorem idList_eq (s : Text) :
    idList s = ((Text.splitOn ',' s).map cleanId).filter fun id => !id.isEmpty := by
  have hclean : ∀ pieces : List Text, pieces.map cleanId = (pieces.map Text.trim).map cleanId := by
    intro pieces
    simp [cleanId_trim]
  rw [idList, hclean, Text.map_trim_splitOn_trim (by decide), ← hclean]

theorem idList_trimEnd (s : Text) : idList (Text.trimEnd s) = idList s := by
  rw [idList, Text.trim_trimEnd, ← idList]

/-- What stands before the first colon does not matter. -/
theorem parseIds_append_colon_iff {head after : Text} {ids : OrderedSet Text} (hhead : ':' ∉ head) :
    parseIds (head ++ ':' :: after) = .ok ids ↔
      idList after ≠ [] ∧ ids = OrderedSet.ofList (idList after) := by
  have hstart : ':' ∉ Text.trimStart head := fun hmem =>
    hhead ((List.dropWhile_sublist _).subset hmem)
  rw [parseIds_eq_ok_iff, Text.trim_append_cons (by decide), Text.splitFirst?_append hstart]
  simp [idList_trimEnd]

theorem noComma_of_spells {id piece : Text} (hid : ',' ∉ id) (h : Spells id piece) : ',' ∉ piece := by
  have hblank : ∀ {s : Text}, Text.Blank s → ',' ∉ s := fun hs => hs.not_mem (by decide)
  cases h with
  | bare hleft hright => simp [hid, hblank hleft, hblank hright]
  | closed hleft hright hcloser hmore =>
    have hnone : ∀ closer ∈ closers, ',' ∉ closer := by decide
    simp [hid, hblank hleft, hblank hright, hblank hmore, hnone _ hcloser]

theorem map_cleanId_of_spells {ids pieces : List Text} (hids : ∀ id ∈ ids, IdShape id ∧ NoClosers id)
    (h : List.Forall₂ Spells ids pieces) :
    pieces.map cleanId = ids ∧ ∀ piece ∈ pieces, ',' ∉ piece := by
  induction h with
  | nil => simp
  | cons hspells _ ih =>
    obtain ⟨⟨hshape, hclosers⟩, hids⟩ := List.forall_mem_cons.1 hids
    obtain ⟨hmap, hcomma⟩ := ih hids
    refine ⟨?_, List.forall_mem_cons.2 ⟨noComma_of_spells hshape.noComma hspells, hcomma⟩⟩
    rw [List.map_cons, cleanId_of_spells hshape hclosers hspells, hmap]

/-- **The ids are found in pieces that spell them.** -/
theorem idList_of_spells {ids pieces : List Text} (hne : ids ≠ [])
    (hids : ∀ id ∈ ids, IdShape id ∧ NoClosers id) (h : List.Forall₂ Spells ids pieces) :
    idList (List.intercalate [','] pieces) = ids := by
  obtain ⟨hmap, hcomma⟩ := map_cleanId_of_spells hids h
  have hpieces : pieces ≠ [] := by
    rintro rfl
    exact hne hmap.symm
  rw [idList_eq, Text.splitOn_intercalate hpieces hcomma, hmap, List.filter_eq_self]
  intro id hid
  simpa using (hids id hid).1.nonempty

/-! ## A line -/

/-- A line writes an annotation of some ids: an opener, at most one blank and the word of the marker,
a colon, and the ids between commas. There is no colon before that one. -/
inductive Writes (m : Marker) (ids : List Text) : Text → Prop where
  | line {before opener gap between : Text} {pieces : List Text} (hbefore : ':' ∉ before)
    (hopener : opener ∈ Marker.openers) (hgap : gap = [] ∨ gap = [' ']) (hbetween : ':' ∉ between)
    (hpieces : List.Forall₂ Spells ids pieces) :
    Writes m ids (before ++ opener ++ gap ++ m.word ++ between ++ ':' :: List.intercalate [','] pieces)

variable {m : Marker} {ids : List Text} {line : Text}

theorem Writes.occursIn (h : Writes m ids line) : m.occursIn line = true := by
  cases h with
  | @line before opener gap between pieces _ hopener hgap _ _ =>
    have hopens := Marker.opens_append (m := m) hopener hgap
      (between ++ ':' :: List.intercalate [','] pieces)
    simpa using Marker.occursIn_append before hopens

theorem Writes.colon_mem (h : Writes m ids line) : ':' ∈ line := by
  cases h
  simp

/-- **The ids are found in a line that writes them.** -/
theorem Writes.parseIds_eq (h : Writes m ids line) (hne : ids ≠ [])
    (hids : ∀ id ∈ ids, IdShape id ∧ NoClosers id) : parseIds line = .ok (OrderedSet.ofList ids) := by
  cases h with
  | @line before opener gap between pieces hbefore hopener hgap hbetween hpieces =>
    have hlist := idList_of_spells hne hids hpieces
    have hhead : ':' ∉ before ++ opener ++ gap ++ m.word ++ between := by
      have hopeners : ∀ opener ∈ Marker.openers, ':' ∉ opener := by decide
      have hword : ':' ∉ m.word := by cases m <;> decide
      have hgap' : ':' ∉ gap := by rcases hgap with rfl | rfl <;> decide
      simp [hbefore, hopeners _ hopener, hword, hgap', hbetween]
    rw [parseIds_append_colon_iff hhead, hlist]
    exact ⟨hne, rfl⟩

end Annotation

/-! ## The tables of a text -/

/-- The tables that a marker is about. -/
def Marker.tables (a : Annotations) : Marker → List RulesByLine
  | .ruleId => [a.expected]
  | .todoRuleId => [a.expected, a.ok, a.todoExpected]
  | .ok => [a.ok]
  | .todoOk => [a.todoOk]

namespace Annotations

open Annotation (Spells Writes IdShape NoClosers parseIds)

/-- Each table that a marker is about holds what is announced under some markers, this one among them. -/
theorem exists_of_mem_tables {m : Marker} {text : Text} {table : RulesByLine}
    (h : table ∈ m.tables (ofText text)) :
    ∃ ms, m ∈ ms ∧ table = tableFrom ms 0 (Text.splitOn '\n' text) .empty := by
  rw [ofText_eq] at h
  cases m with
  | ruleId => exact ⟨_, by decide, List.mem_singleton.1 h⟩
  | todoRuleId =>
    simp only [Marker.tables, List.mem_cons, List.not_mem_nil, or_false] at h
    obtain rfl | rfl | rfl := h
    all_goals exact ⟨_, by decide, rfl⟩
  | ok => exact ⟨_, by decide, List.mem_singleton.1 h⟩
  | todoOk => exact ⟨_, by decide, List.mem_singleton.1 h⟩

/-- A line contributes the ids it names to each table that its marker is about. -/
theorem get?_of_mem_tables {m : Marker} {text line : Text} {i : Nat}
    (hline : (Text.splitOn '\n' text)[i]? = some line) (hm : m.occursIn line = true)
    (hcolon : ':' ∈ line) {ids : OrderedSet Text} (hparse : parseIds line = .ok ids)
    {table : RulesByLine} (htable : table ∈ m.tables (ofText text)) :
    table.get? (i + 2) = some ids := by
  obtain ⟨ms, hmem, rfl⟩ := exists_of_mem_tables htable
  rw [get?_tableFrom_empty, hline, Option.bind_some, idsUnder_eq_some_iff]
  exact ⟨⟨m, hmem, hm⟩, hcolon, hparse⟩

/-- **A written annotation is read back**: on the line that it announces, each table that its marker is
about holds the ids that it writes and no others. -/
theorem get?_tables_of_writes {m : Marker} {ids : List Text} {line text : Text} {i : Nat}
    (hwrites : Writes m ids line) (hne : ids ≠ [])
    (hids : ∀ id ∈ ids, IdShape id ∧ NoClosers id)
    (hline : (Text.splitOn '\n' text)[i]? = some line) :
    ∀ table ∈ m.tables (ofText text), table.get? (i + 2) = some (OrderedSet.ofList ids) := by
  intro table htable
  exact get?_of_mem_tables hline hwrites.occursIn hwrites.colon_mem (hwrites.parseIds_eq hne hids)
    htable

/-- Ids that end like a closing token, each with blanks of another kind around it. -/
theorem get?_tables_of_padded_ids :
    let ids : List Text := ["a-".toList, "b*".toList, "c".toList]
    let line : Text := "x = 1; (* todoruleid, later:\u00a0a-*)\u2003, b* -->\r,\tc\r".toList
    let text : Text := "def f".toList ++ '\n' :: line ++ '\n' :: "x".toList
    Writes .todoRuleId ids line ∧
      ∀ table ∈ Marker.tables (ofText text) .todoRuleId,
        table.get? 3 = some (OrderedSet.ofList ids) := by
  intro ids line text
  have hspells : List.Forall₂ Spells ids
      ["\u00a0a-*)\u2003".toList, " b* -->\r".toList, "\tc\r".toList] := by
    refine .cons ?_ (.cons ?_ (.cons ?_ .nil))
    · exact @Spells.closed _ ['\u00a0'] [] ['*', ')'] ['\u2003'] (by decide) (by decide)
        (by decide) (by decide)
    · exact @Spells.closed _ [' '] [' '] ['-', '-', '>'] ['\r'] (by decide) (by decide)
        (by decide) (by decide)
    · exact @Spells.bare _ ['\t'] ['\r'] (by decide) (by decide)
  have hwrites : Writes .todoRuleId ids line :=
    @Writes.line .todoRuleId ids "x = 1; ".toList "(*".toList [' '] ", later".toList _
      (by decide) (by decide) (by decide) (by decide) hspells
  exact ⟨hwrites, get?_tables_of_writes hwrites (by decide) (by decide) (by decide)⟩

end Annotations

end RuleAudit
