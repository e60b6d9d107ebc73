import RuleAudit.Proofs.Annotation.Marks
import RuleAudit.Proofs.Text.Pieces
import RuleAudit.Proofs.Text.Trimming

/-!
# Rule ids in lines

An id that a line names is a trimmed, nonempty piece of the line without commas. The other way round,
a line that consists of a marker, a colon and such an id names that id alone, provided that no
closing token stands in it: closing tokens are removed wherever they are.
-/

namespace RuleAudit.Annotation

/-- The shape of an id that is read from a line: nonempty, trimmed and without commas. -/
structure IdShape (id : Text) : Prop where
  nonempty : id ≠ []
  trimmed : Text.Trimmed id
  noComma : ',' ∉ id

instance (id : Text) : Decidable (IdShape id) :=
  decidable_of_iff (id ≠ [] ∧ Text.Trimmed id ∧ ',' ∉ id)
    ⟨fun h => ⟨h.1, h.2.1, h.2.2⟩, fun h => ⟨h.nonempty, h.trimmed, h.noComma⟩⟩

/-- No token that closes a comment stands in the id. -/
def NoClosers (id : Text) : Prop := ∀ closer ∈ closers, Text.hasInfix closer id = false

instance (id : Text) : Decidable (NoClosers id) :=
  inferInstanceAs (Decidable (∀ closer ∈ closers, Text.hasInfix closer id = false))

theorem mem_of_mem_cleanId {piece : Text} {c : Char} (h : c ∈ cleanId piece) : c ∈ piece := by
  simp only [cleanId, closers, List.foldl_cons, List.foldl_nil] at h
  have h := Text.mem_of_mem_replaceAll_nil (by simp) (Text.mem_of_mem_trim h)
  have h := Text.mem_of_mem_replaceAll_nil (by simp) (Text.mem_of_mem_trim h)
  exact Text.mem_of_mem_trim h

theorem cleanId_eq_self {id : Text} (htrim : Text.Trimmed id) (hclosers : NoClosers id) :
    cleanId id = id := by
  have htrim' : Text.trim id = id := Text.trim_eq_self_iff.2 htrim
  have hreplace : ∀ closer ∈ closers, Text.replaceAll closer [] id = id := by
    intro closer hc
    refine Text.replaceAll_eq_self ?_ (hclosers closer hc)
    rintro rfl
    simp [closers] at hc
  simp only [cleanId, closers, List.foldl_cons, List.foldl_nil, htrim',
    hreplace ['-', '-', '>'] (by simp [closers]), hreplace ['*', ')'] (by simp [closers])]

theorem mem_of_mem_idList {s id : Text} (h : id ∈ idList s) :
    IdShape id ∧ ∀ c ∈ id, c ∈ s := by
  simp only [idList, List.mem_filter, List.mem_map] at h
  obtain ⟨⟨piece, hpiece, rfl⟩, hne⟩ := h
  refine ⟨⟨by simpa using hne, Text.trimmed_trim _, ?_⟩, ?_⟩
  · exact fun hcomma => Text.not_mem_of_mem_splitOn hpiece (mem_of_mem_cleanId hcomma)
  · intro c hc
    exact Text.mem_of_mem_trim (Text.mem_of_mem_splitOn hpiece (mem_of_mem_cleanId hc))

theorem parseIds_eq_ok_iff {line : Text} {ids : OrderedSet Text} : parseIds line = .ok ids ↔
    ∃ before after, Text.splitFirst? ':' (Text.trim line) = some (before, after) ∧
      idList after ≠ [] ∧ ids = OrderedSet.ofList (idList after) := by
  rw [parseIds]
  cases hsplit : Text.splitFirst? ':' (Text.trim line) with
  | none => simp
  | some cut =>
    obtain ⟨before, after⟩ := cut
    cases hids : idList after with
    | nil => simp [hids]
    | cons id rest => simpa [hids] using eq_comm

/-- A line that names ids names at least one. -/
theorem elems_ne_nil_of_parseIds {line : Text} {ids : OrderedSet Text} (h : parseIds line = .ok ids) :
    ids.elems ≠ [] := by
  obtain ⟨before, after, -, hne, rfl⟩ := parseIds_eq_ok_iff.1 h
  obtain ⟨id, hid⟩ := List.exists_mem_of_ne_nil _ hne
  exact List.ne_nil_of_mem (OrderedSet.mem_ofList.2 hid)

/-- The ids that a line names have the shape of ids and are made of characters of the line. -/
theorem idShape_of_names {line rule : Text} (h : Names line rule) :
    IdShape rule ∧ ∀ c ∈ rule, c ∈ line := by
  obtain ⟨-, ids, hparse, hrule⟩ := h
  obtain ⟨before, after, hsplit, -, rfl⟩ := parseIds_eq_ok_iff.1 hparse
  obtain ⟨hshape, hmem⟩ := mem_of_mem_idList (OrderedSet.mem_ofList.1 hrule)
  refine ⟨hshape, ?_⟩
  intro c hc
  exact Text.mem_of_mem_trim (Text.mem_of_splitFirst? hsplit (hmem c hc))

theorem idList_single {id : Text} (hshape : IdShape id) (hclosers : NoClosers id) :
    idList (' ' :: id) = [id] := by
  have hblank : Text.trim (' ' :: id) = id := by
    rw [Text.trim_cons_blank (by decide), Text.trim_eq_self_iff.2 hshape.trimmed]
  rw [idList, hblank, Text.splitOn_of_not_mem hshape.noComma]
  simp [cleanId_eq_self hshape.trimmed hclosers, hshape.nonempty]

/-- **A line with one id names it and nothing else.** -/
theorem names_single_iff {first : Char} {opening id rule : Text}
    (hfirst : Text.isBlank first = false) (hcolon : ':' ∉ first :: opening) (hshape : IdShape id)
    (hclosers : NoClosers id) :
    Names (first :: opening ++ ':' :: ' ' :: id) rule ↔ rule = id := by
  have htrim : Text.trim (first :: opening ++ ':' :: ' ' :: id) =
      first :: opening ++ ':' :: ' ' :: id := by
    refine Text.trim_eq_self_iff.2 ⟨by simp [hfirst], ?_⟩
    intro c hc
    refine hshape.trimmed.2 c ?_
    have hlast : (first :: opening ++ ':' :: ' ' :: id).getLast? = id.getLast? := by
      obtain ⟨d, rest, rfl⟩ := List.exists_cons_of_ne_nil hshape.nonempty
      simp [List.getLast?_cons, List.getLast?_append]
    rwa [← hlast]
  have hparse : parseIds (first :: opening ++ ':' :: ' ' :: id) = .ok (OrderedSet.ofList [id]) := by
    refine parseIds_eq_ok_iff.2 ⟨first :: opening, ' ' :: id, ?_, ?_, ?_⟩
    · rw [htrim, Text.splitFirst?_append hcolon]
    · rw [idList_single hshape hclosers]
      simp
    · rw [idList_single hshape hclosers]
  rw [Names, hparse]
  simp

end RuleAudit.Annotation
