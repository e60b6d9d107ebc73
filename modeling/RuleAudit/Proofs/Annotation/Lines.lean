import RuleAudit.Proofs.Annotation.Marks

/-!
# The tables of a fixture, line by line

Line `i + 2` of a table depends on the line with index `i` of the text alone: it holds the ids that this
line names if the line carries one of the markers of the table, and nothing otherwise.
-/

namespace RuleAudit

theorem OrderedSet.empty_union {α : Type} [Ord α] [Std.TransOrd α] [Std.LawfulEqOrd α]
    (s : OrderedSet α) : OrderedSet.empty.union s = s := by
  refine OrderedSet.ext_mem fun x => ?_
  simp [OrderedSet.empty]

/-- More ids for a line without any. -/
theorem RulesByLine.get?_add_self {t : RulesByLine} {line : Nat} (h : t.get? line = none)
    (ids : OrderedSet Text) : (t.add line ids).get? line = some ids := by
  rw [add, OrderedMap.get?_alter, if_pos Std.ReflCmp.compare_self, h, Option.getD_none,
    OrderedSet.empty_union]

theorem RulesByLine.get?_add_of_ne {t : RulesByLine} {line n : Nat} (h : n ≠ line)
    (ids : OrderedSet Text) : (t.add line ids).get? n = t.get? n := by
  rw [add, OrderedMap.get?_alter, if_neg (by simpa using h)]

namespace Annotations

open Annotation (parseIds)

/-- The ids that a line contributes to the table for some markers. -/
def idsUnder (ms : List Marker) (line : Text) : Option (OrderedSet Text) :=
  if (Marker.ofLine line).any ms.contains && line.contains ':' then
    (parseIds line).toOption
  else Option.none

theorem idsUnder_eq_some_iff {ms : List Marker} {line : Text} {ids : OrderedSet Text} :
    idsUnder ms line = some ids ↔ (∃ m ∈ ms, m.occursIn line = true) ∧ ':' ∈ line ∧
      parseIds line = .ok ids := by
  simp only [idsUnder, ← Marker.mem_ofLine]
  cases parseIds line with
  | error fault => simp [Except.toOption]
  | ok parsed => simp [Except.toOption, and_assoc, and_left_comm, and_comm]

/-- The table for some markers of lines, on top of what is known of earlier lines. -/
def tableFrom (ms : List Marker) (above : Nat) (lines : List Text) (t : RulesByLine) : RulesByLine :=
  (notesFrom above lines).foldl (fun t x => addWhen ms x t) t

/-- The first line contributes to the line that it announces. -/
theorem tableFrom_cons (ms : List Marker) (above : Nat) (line : Text) (rest : List Text)
    (t : RulesByLine) : tableFrom ms above (line :: rest) t =
      tableFrom ms (above + 1) rest
        ((idsUnder ms line).elim t fun ids => t.add (above + 2) ids) := by
  rw [tableFrom, notesFrom, List.foldl_append, ← tableFrom]
  congr 1
  cases hnote : note? above line with
  | none =>
    cases hids : idsUnder ms line with
    | none => rfl
    | some ids =>
      obtain ⟨⟨m, -, hm⟩, hcolon, hparse⟩ := idsUnder_eq_some_iff.1 hids
      have hmarkers : Marker.ofLine line ≠ [] := List.ne_nil_of_mem (Marker.mem_ofLine.2 hm)
      simp [note?_eq_some_iff.2 ⟨hmarkers, hcolon, ids, hparse, rfl⟩] at hnote
  | some x =>
    obtain ⟨-, hcolon, ids, hparse, rfl⟩ := note?_eq_some_iff.1 hnote
    by_cases hany : (Marker.ofLine line).any ms.contains = true
    · have hids : idsUnder ms line = some ids := by
        rw [idsUnder, if_pos (by simpa [hany] using hcolon), hparse]
        rfl
      rw [hids]
      exact if_pos hany
    · have hids : idsUnder ms line = Option.none := if_neg fun h => hany (Bool.and_eq_true_iff.1 h).1
      rw [hids]
      exact if_neg hany

/-- Lines before those that are announced stay as they are. -/
theorem get?_tableFrom_of_lt {ms : List Marker} {above n : Nat} {lines : List Text} {t : RulesByLine}
    (h : n < above + 2) : (tableFrom ms above lines t).get? n = t.get? n := by
  induction lines generalizing above t with
  | nil => rfl
  | cons line rest ih =>
    rw [tableFrom_cons, ih (by omega)]
    cases idsUnder ms line with
    | none => rfl
    | some ids => exact RulesByLine.get?_add_of_ne (by omega) ids

/-- Each line contributes to the line that it announces, and to no other one. -/
theorem get?_tableFrom (ms : List Marker) (lines : List Text) {above : Nat} {t : RulesByLine}
    (ht : ∀ n, above + 2 ≤ n → t.get? n = Option.none) (i : Nat) :
    (tableFrom ms above lines t).get? (above + i + 2) = lines[i]?.bind (idsUnder ms) := by
  induction lines generalizing above t i with
  | nil => exact ht _ (by omega)
  | cons line rest ih =>
    rw [tableFrom_cons]
    cases i with
    | zero =>
      rw [get?_tableFrom_of_lt (by omega)]
      cases hids : idsUnder ms line with
      | none => simpa [hids] using ht _ (Nat.le_refl _)
      | some ids => simpa [hids] using RulesByLine.get?_add_self (ht _ (Nat.le_refl _)) ids
    | succ i =>
      have hlater : ∀ n, above + 1 + 2 ≤ n →
          OrderedMap.get? ((idsUnder ms line).elim t fun ids => t.add (above + 2) ids) n =
            Option.none := by
        intro n hn
        cases idsUnder ms line with
        | none => exact ht n (by omega)
        | some ids => exact (RulesByLine.get?_add_of_ne (by omega) ids).trans (ht n (by omega))
      simpa [Nat.add_assoc, Nat.add_comm 1] using ih hlater i

/-! ## Entries -/

/-- The entries for the ids that lines in a row contribute, the first line with `above` lines before it. -/
def entriesFrom (above : Nat) (contributed : List (Option (OrderedSet Text))) :
    List (Nat × OrderedSet Text) :=
  (contributed.zipIdx above).filterMap fun x => x.1.map fun ids => (x.2 + 2, ids)

/-- Where the entries of lines are that come `n` lines further down. -/
def furtherDown (n : Nat) (e : Nat × OrderedSet Text) : Nat × OrderedSet Text := (e.1 + n, e.2)

theorem entriesFrom_cons (above : Nat) (ids : Option (OrderedSet Text))
    (contributed : List (Option (OrderedSet Text))) :
    entriesFrom above (ids :: contributed) =
      (ids.map fun ids => (above + 2, ids)).toList ++ entriesFrom (above + 1) contributed := by
  rw [entriesFrom, List.zipIdx_cons, List.filterMap_cons, ← entriesFrom]
  cases ids <;> rfl

theorem entriesFrom_append (above : Nat) (upper lower : List (Option (OrderedSet Text))) :
    entriesFrom above (upper ++ lower) =
      entriesFrom above upper ++ entriesFrom (above + upper.length) lower := by
  rw [entriesFrom, List.zipIdx_append, List.filterMap_append, ← entriesFrom, ← entriesFrom]

/-- Lines further down have their entries further down. -/
theorem entriesFrom_add (above n : Nat) (contributed : List (Option (OrderedSet Text))) :
    entriesFrom (n + above) contributed = (entriesFrom above contributed).map (furtherDown n) := by
  rw [entriesFrom, entriesFrom, ← List.map_snd_add_zipIdx_eq_zipIdx, List.filterMap_map,
    List.map_filterMap]
  refine List.filterMap_congr fun x _ => ?_
  cases hx : x.1 with
  | none => simp [hx]
  | some ids => simp [hx, furtherDown, Nat.add_right_comm]

/-- The entries of lines are for the lines that these announce. -/
theorem line_of_mem_entriesFrom {above : Nat} {contributed : List (Option (OrderedSet Text))}
    {e : Nat × OrderedSet Text} (h : e ∈ entriesFrom above contributed) :
    above + 2 ≤ e.1 ∧ e.1 < above + 2 + contributed.length := by
  obtain ⟨x, hx, he⟩ := List.mem_filterMap.1 h
  obtain ⟨ids, -, rfl⟩ := Option.map_eq_some_iff.1 he
  have hle := List.le_snd_of_mem_zipIdx hx
  have hlt := List.snd_lt_add_of_mem_zipIdx hx
  simp only
  omega

/-- **The entries of a table** come in the order of the lines that contribute them. -/
theorem entries_tableFrom (ms : List Marker) (lines : List Text) {above : Nat} {t : RulesByLine}
    (ht : ∀ e ∈ t.entries, e.1 < above + 2) :
    (tableFrom ms above lines t).entries =
      t.entries ++ entriesFrom above (lines.map (idsUnder ms)) := by
  induction lines generalizing above t with
  | nil => simp [tableFrom, notesFrom, entriesFrom]
  | cons line rest ih =>
    rw [tableFrom_cons, List.map_cons, entriesFrom_cons]
    cases idsUnder ms line with
    | none => exact ih fun e he => Nat.lt_succ_of_lt (ht e he)
    | some ids =>
      have hadd : (t.add (above + 2) ids).entries = t.entries ++ [(above + 2, ids)] := by
        have hgt : ∀ e ∈ t.entries, compare (above + 2) e.1 = .gt := fun e he =>
          Nat.compare_eq_gt.2 (ht e he)
        rw [RulesByLine.add, OrderedMap.entries_alter_of_forall_gt hgt, Option.getD_none,
          OrderedSet.empty_union]
      rw [Option.elim_some, ih, hadd, List.append_assoc]
      · rfl
      · intro e he
        rw [hadd, List.mem_append, List.mem_singleton] at he
        obtain he | rfl := he
        · exact Nat.lt_succ_of_lt (ht e he)
        · exact Nat.lt_succ_self _

/-! ## The tables of a text -/

/-- The tables of a fixture, one after the other. -/
def tables : List (Annotations → RulesByLine) := [expected, ok, todoOk, todoExpected]

/-- The markers under which a line is announced for each of the tables. -/
theorem ofText_eq (text : Text) :
    ofText text =
      ⟨tableFrom [.ruleId, .todoRuleId] 0 (Text.splitOn '\n' text) .empty,
        tableFrom [.ok, .todoRuleId] 0 (Text.splitOn '\n' text) .empty,
        tableFrom [.todoOk] 0 (Text.splitOn '\n' text) .empty,
        tableFrom [.todoRuleId] 0 (Text.splitOn '\n' text) .empty⟩ :=
  foldl_record (notes text) none

/-- The table for some markers at the line that is announced by the line of index `i`. -/
theorem get?_tableFrom_empty (ms : List Marker) (lines : List Text) (i : Nat) :
    (tableFrom ms 0 lines .empty).get? (i + 2) = lines[i]?.bind (idsUnder ms) := by
  have hempty : ∀ n, 0 + 2 ≤ n → OrderedMap.get? (.empty : RulesByLine) n = Option.none := fun _ _ => rfl
  simpa using get?_tableFrom ms lines hempty i

/-- Each table collects what is announced under its markers, whatever the text. -/
theorem exists_markers_of_mem {table : Annotations → RulesByLine} (h : table ∈ tables) :
    ∃ ms, ∀ text, table (ofText text) = tableFrom ms 0 (Text.splitOn '\n' text) .empty := by
  simp only [tables, List.mem_cons, List.not_mem_nil, or_false] at h
  rcases h with rfl | rfl | rfl | rfl
  all_goals exact ⟨_, fun text => by rw [ofText_eq]⟩

/-- The entries of a table of a text, in the order of its lines. -/
theorem entries_tableFrom_empty (ms : List Marker) (lines : List Text) :
    (tableFrom ms 0 lines .empty).entries = entriesFrom 0 (lines.map (idsUnder ms)) := by
  rw [entries_tableFrom ms lines fun e he => absurd he List.not_mem_nil]
  rfl

/-- Texts whose lines contribute alike have the same tables. -/
theorem ofText_congr {text text' : Text}
    (h : ∀ ms, (Text.splitOn '\n' text).map (idsUnder ms) =
      (Text.splitOn '\n' text').map (idsUnder ms)) : ofText text = ofText text' := by
  have htable : ∀ ms, tableFrom ms 0 (Text.splitOn '\n' text) .empty =
      tableFrom ms 0 (Text.splitOn '\n' text') .empty := by
    intro ms
    apply OrderedMap.ext
    rw [entries_tableFrom_empty, entries_tableFrom_empty, h ms]
  rw [ofText_eq, ofText_eq, htable, htable, htable, htable]

end Annotations

end RuleAudit
