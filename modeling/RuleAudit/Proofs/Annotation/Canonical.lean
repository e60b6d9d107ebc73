import Mathlib.Data.List.Forall2
import RuleAudit.Proofs.Annotation.Writing

/-!
# The canonical line of some ids

The ids that a line names can be written on a line of their own, in their order and with a comma and a
blank between them. Reading this line gives the ids back as long as no closing token stands in them. Ids
that are read from a line are nonempty and trimmed, and have no commas, but they are not always free of
closing tokens: the removal of one token can put another one together.
-/

namespace RuleAudit.Annotation

/-- The line that announces ids in the plainest way. -/
def ruleLine (ids : List Text) : Text := "# ruleid: ".toList ++ List.intercalate [',', ' '] ids

/-! ## Reading the canonical line -/

/-- A blank after each comma and after the colon is a blank before each id. -/
theorem intercalate_map_blank {ids : List Text} (hne : ids ≠ []) :
    List.intercalate [','] (ids.map (' ' :: ·)) = ' ' :: List.intercalate [',', ' '] ids := by
  induction ids with
  | nil => exact absurd rfl hne
  | cons id rest ih =>
    cases rest with
    | nil => simp
    | cons second rest =>
      rw [List.map_cons, List.map_cons, List.intercalate_cons_cons, ← List.map_cons,
        ih (by simp), List.intercalate_cons_cons]
      simp

/-- The canonical line writes its ids. -/
theorem writes_ruleLine {ids : List Text} (hne : ids ≠ []) : Writes .ruleId ids (ruleLine ids) := by
  have hspells : List.Forall₂ Spells ids (ids.map (' ' :: ·)) := by
    rw [List.forall₂_map_right_iff, List.forall₂_same]
    intro id _
    simpa using @Spells.bare id [' '] [] (by decide) Text.blank_nil
  have hline := @Writes.line .ruleId ids [] ['#'] [' '] [] _ (by simp) (by decide) (.inr rfl)
    (by simp) hspells
  rw [intercalate_map_blank hne] at hline
  exact hline

/-- Without commas in the ids, reading the canonical line cleans them once more. -/
theorem parseIds_ruleLine_iff {ids : List Text} {parsed : OrderedSet Text} (hne : ids ≠ [])
    (hcomma : ∀ id ∈ ids, ',' ∉ id) : parseIds (ruleLine ids) = .ok parsed ↔
      ((ids.map cleanId).filter fun id => !id.isEmpty) ≠ [] ∧
        parsed = OrderedSet.ofList ((ids.map cleanId).filter fun id => !id.isEmpty) := by
  have hpieces : ∀ piece ∈ ids.map (' ' :: ·), ',' ∉ piece := by
    simpa using hcomma
  have hclean : (ids.map (' ' :: ·)).map cleanId = ids.map cleanId := by
    rw [List.map_map]
    refine List.map_congr_left fun id _ => ?_
    rw [Function.comp_apply, ← cleanId_trim, Text.trim_cons_blank (by decide), cleanId_trim]
  have hlist : idList (' ' :: List.intercalate [',', ' '] ids) =
      (ids.map cleanId).filter fun id => !id.isEmpty := by
    rw [idList_eq, ← intercalate_map_blank hne, Text.splitOn_intercalate (by simpa using hne) hpieces,
      hclean]
  have hline : ruleLine ids =
      "# ruleid".toList ++ ':' :: ' ' :: List.intercalate [',', ' '] ids := rfl
  rw [hline, parseIds_append_colon_iff (by decide), hlist]

/-! ## Cleaning twice -/

/-- Cleaning an id with a closing token in it makes it shorter. -/
theorem length_cleanId_lt {id : Text} (htrim : Text.Trimmed id) (h : ¬ NoClosers id) :
    (cleanId id).length < id.length := by
  have hle : ∀ {word s : Text}, word ≠ [] →
      (Text.trim (Text.replaceAll word [] s)).length ≤ s.length := fun hword =>
    (Text.isInfix_trim _).length_le.trans (Text.removal_sublist hword _).length_le
  have hlt : ∀ {word s : Text}, word ≠ [] → Text.hasInfix word s = true →
      (Text.trim (Text.replaceAll word [] s)).length < s.length := fun hword hs =>
    (Text.isInfix_trim _).length_le.trans_lt (Text.length_removal_lt hword hs)
  have htrim' : Text.trim id = id := Text.trim_eq_self_iff.2 htrim
  rw [cleanId_eq, htrim']
  by_cases hfirst : Text.hasInfix ['-', '-', '>'] id = true
  · exact (hle (by decide)).trans_lt (hlt (by decide) hfirst)
  · have hsecond : Text.hasInfix ['*', ')'] id = true := by
      by_contra hnone
      exact h (by simp [NoClosers, closers, hfirst, hnone])
    rw [Text.replaceAll_eq_self (by decide) (Bool.eq_false_iff.2 hfirst), htrim']
    exact hlt (by decide) hsecond

/-- Ids that are all found again by cleaning them have no closing tokens: an id with one would be what
is left of a longer one, and so on without end. -/
theorem noClosers_of_forall_exists {ids : List Text} (hshape : ∀ id ∈ ids, IdShape id)
    (h : ∀ id ∈ ids, ∃ id' ∈ ids, cleanId id' = id) : ∀ id ∈ ids, NoClosers id := by
  have hbound : ∀ id ∈ ids, id.length ≤ ids.flatten.length := fun id hid =>
    (List.infix_of_mem_flatten hid).length_le
  intro id hid
  induction hn : ids.flatten.length - id.length using Nat.strong_induction_on generalizing id with
  | _ n ih =>
    subst hn
    obtain ⟨id', hid', hclean⟩ := h id hid
    have hcleaned : NoClosers id' → NoClosers id := by
      intro hclosers
      rwa [← hclean, cleanId_eq_self (hshape id' hid').trimmed hclosers]
    by_contra hnot
    have hnot' : ¬ NoClosers id' := fun hclosers => hnot (hcleaned hclosers)
    have hlonger := length_cleanId_lt (hshape id' hid').trimmed hnot'
    rw [hclean] at hlonger
    have hle := hbound id' hid'
    exact hnot' (ih _ (by omega) id' hid' rfl)

theorem NoClosers.of_infix {s t : Text} (h : NoClosers s) (ht : t <:+: s) : NoClosers t :=
  noClosers_iff.2 fun closer hcloser hin => noClosers_iff.1 h closer hcloser (hin.trans ht)

/-- From a line without closing tokens no part of an id is removed. -/
theorem noClosers_of_mem_idList {s id : Text} (hs : NoClosers s) (h : id ∈ idList s) :
    NoClosers id := by
  rw [idList_eq, List.mem_filter, List.mem_map] at h
  obtain ⟨⟨piece, hpiece, rfl⟩, -⟩ := h
  have hin : Text.trim piece <:+: s := (Text.isInfix_trim piece).trans (Text.infix_of_mem_splitOn hpiece)
  have htrim : NoClosers (Text.trim piece) := hs.of_infix hin
  rwa [← cleanId_trim, cleanId_eq_self (Text.trimmed_trim piece) htrim]

/-- **The ids of a line** are nonempty, trimmed and without commas, and there is one at least. Their
canonical line gives them back if and only if no closing token stands in any of them, as is the case when
none stands in the line. -/
theorem canonical_of_parseIds {line : Text} {ids : OrderedSet Text} (h : parseIds line = .ok ids) :
    ids.elems ≠ [] ∧ (∀ id ∈ ids.elems, IdShape id) ∧
      (parseIds (ruleLine ids.elems) = .ok ids ↔ ∀ id ∈ ids.elems, NoClosers id) ∧
      (NoClosers line → ∀ id ∈ ids.elems, NoClosers id) := by
  obtain ⟨before, after, hsplit, hlist, rfl⟩ := parseIds_eq_ok_iff.1 h
  have hne : (OrderedSet.ofList (idList after)).elems ≠ [] := by
    obtain ⟨id, hid⟩ := List.exists_mem_of_ne_nil _ hlist
    exact List.ne_nil_of_mem (OrderedSet.mem_ofList.2 hid)
  have hshape : ∀ id ∈ (OrderedSet.ofList (idList after)).elems, IdShape id := fun id hid =>
    (mem_of_mem_idList (OrderedSet.mem_ofList.1 hid)).1
  refine ⟨hne, hshape, ⟨?_, ?_⟩, ?_⟩
  · intro hagain
    obtain ⟨-, hsame⟩ := (parseIds_ruleLine_iff hne fun id hid => (hshape id hid).noComma).1 hagain
    refine noClosers_of_forall_exists hshape fun id hid => ?_
    rw [hsame, OrderedSet.mem_ofList, List.mem_filter, List.mem_map] at hid
    exact hid.1
  · intro hclosers
    have hagain := (writes_ruleLine hne).parseIds_eq hne fun id hid => ⟨hshape id hid, hclosers id hid⟩
    rw [hagain]
    exact congrArg Except.ok (OrderedSet.ext_mem fun id => OrderedSet.mem_ofList)
  · intro hline id hid
    have hafter : after <:+: line := by
      have hcut := Text.eq_append_of_splitFirst? hsplit
      have hin : after <:+: Text.trim line := ⟨before ++ [':'], [], by simp [hcut]⟩
      exact hin.trans (Text.isInfix_trim line)
    exact noClosers_of_mem_idList (hline.of_infix hafter) (OrderedSet.mem_ofList.1 hid)

/-- The closing tokens of a comment are no part of its ids. -/
theorem canonical_of_closed_comment :
    let line : Text := "<!-- ok: b*, a -->".toList
    let ids : OrderedSet Text := OrderedSet.ofList ["a".toList, "b*".toList]
    parseIds line = .ok ids ∧ parseIds (ruleLine ids.elems) = .ok ids := by
  intro line ids
  have hparse : parseIds line = .ok ids := by decide
  obtain ⟨-, -, hagain, -⟩ := canonical_of_parseIds hparse
  exact ⟨hparse, hagain.2 (by decide)⟩

/-- **The removal of one closing token can put another one together.** It is left as an id, and the
canonical line loses that id. -/
theorem closer_from_removal :
    let ids : OrderedSet Text := OrderedSet.ofList ["-->".toList, "a".toList]
    parseIds "# ruleid: a, --*)>".toList = .ok ids ∧ ¬ NoClosers "-->".toList ∧
      parseIds (ruleLine ids.elems) = .ok (OrderedSet.ofList ["a".toList]) := by
  decide

end RuleAudit.Annotation
