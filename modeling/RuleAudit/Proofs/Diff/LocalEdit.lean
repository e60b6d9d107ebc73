import RuleAudit.Proofs.Diff.Changes
import RuleAudit.Proofs.Diff.Plans
import RuleAudit.Proofs.Text.Trimming

/-!
# Local edits

Two lists differ in one place: some elements in the one stand where other elements stand in the other, and
what is before and after them is the same in both. Then the script of the two lists changes one run of
elements and keeps the rest. The run need not be the elements that were exchanged. When elements are only
inserted, or only removed, and repeat what stands next to them, the common head reaches into the change and
the run slides towards the end of the list. But it slides as a whole, so that it has the same length.
-/

namespace RuleAudit

variable {α : Type}

namespace Edit

variable [DecidableEq α]

/-! ## Common heads -/

theorem commonHead_append (head old new : List α) :
    commonHead (head ++ old) (head ++ new) = head.length + commonHead old new := by
  induction head with
  | nil => simp
  | cons x head ih =>
    rw [List.cons_append, List.cons_append, commonHead, if_pos rfl, ih, List.length_cons]
    omega

theorem commonHead_comm (old new : List α) : commonHead old new = commonHead new old := by
  induction old generalizing new with
  | nil => cases new <;> rfl
  | cons x old ih =>
    cases new with
    | nil => rfl
    | cons y new => simp only [commonHead, ih new, eq_comm]

/-- Behind their common head, two lists have none. -/
theorem commonHead_drop (old new : List α) :
    commonHead (old.drop (commonHead old new)) (new.drop (commonHead old new)) = 0 := by
  have h := commonHead_append (old.take (commonHead old new)) (old.drop (commonHead old new))
    (new.drop (commonHead old new))
  rw [List.take_append_drop, take_commonHead, List.take_append_drop, ← take_commonHead,
    length_take_commonHead] at h
  omega

omit [DecidableEq α] in
theorem head_ne_of_disjoint {x y : α} {old new : List α} (h : (x :: old).Disjoint (y :: new)) :
    x ≠ y := by
  intro hxy
  exact h List.mem_cons_self (hxy ▸ List.mem_cons_self)

theorem commonHead_of_disjoint {old new : List α} (h : old.Disjoint new) : commonHead old new = 0 := by
  cases old with
  | nil => rfl
  | cons x old =>
    cases new with
    | nil => rfl
    | cons y new => rw [commonHead, if_neg (head_ne_of_disjoint h)]

/-- A head and a tail that reach as far as possible are those that the script keeps. -/
theorem script_of_trimmed (head : List α) {gone come tail : List α}
    (hhead : commonHead (gone ++ tail) (come ++ tail) = 0)
    (htail : commonHead gone.reverse come.reverse = 0) :
    script (head ++ gone ++ tail) (head ++ come ++ tail) =
      List.replicate head.length keep ++ plannedScript gone come ++
        List.replicate tail.length keep := by
  have hheads : commonHead (head ++ (gone ++ tail)) (head ++ (come ++ tail)) = head.length := by
    rw [commonHead_append, hhead, Nat.add_zero]
  have htails : commonHead (gone ++ tail).reverse (come ++ tail).reverse = tail.length := by
    rw [List.reverse_append, List.reverse_append, commonHead_append, htail, List.length_reverse,
      Nat.add_zero]
  simp only [script, List.append_assoc, hheads, List.drop_left, htails, List.length_append,
    Nat.add_sub_cancel, List.take_left]

/-! ## What is between -/

/-- **Without common elements** everything goes before anything comes. -/
theorem best_of_disjoint {gone come : List α} (h : gone.Disjoint come) :
    best gone come =
      ⟨0, List.replicate gone.length remove ++ List.replicate come.length insert⟩ := by
  fun_induction best gone come with
  | case1 come => simp
  | case2 x gone => simp
  | case3 x gone y come hremoved hinserted _ =>
    -- Neither of the shorter plans keeps anything, so that the head is removed first.
    rw [hremoved (List.disjoint_of_disjoint_cons_left h),
      hinserted (List.disjoint_of_disjoint_cons_right h), extend, if_neg (head_ne_of_disjoint h),
      if_pos (Nat.le_refl 0)]
    rfl

/-- **An insertion slides** as far as the list goes on with what is inserted. Behind that, the common tail
is all that is left of the old list. -/
theorem exists_slid (new tail : List α) : ∃ slid moved rest, tail = slid ++ rest ∧
    new ++ tail = slid ++ moved ++ rest ∧ moved.length = new.length ∧
      commonHead rest (moved ++ rest) = 0 := by
  have hle : commonHead tail (new ++ tail) ≤ tail.length := commonHead_le _ _
  have htake := take_commonHead tail (new ++ tail)
  have hdrop := commonHead_drop tail (new ++ tail)
  generalize commonHead tail (new ++ tail) = k at hle htake hdrop
  have hsuffix : tail.drop k <:+ (new ++ tail).drop k := by
    apply List.suffix_of_suffix_length_le
    · exact (List.drop_suffix k tail).trans (List.suffix_append new tail)
    · exact List.drop_suffix k (new ++ tail)
    · rw [List.length_drop, List.length_drop, List.length_append]
      omega
  obtain ⟨moved, hmoved⟩ := hsuffix
  refine ⟨tail.take k, moved, tail.drop k, (List.take_append_drop k tail).symm, ?_, ?_, ?_⟩
  · rw [List.append_assoc, hmoved, htake, List.take_append_drop]
  · have hlength := congrArg List.length hmoved
    rw [List.length_append, List.length_drop, List.length_drop, List.length_append] at hlength
    omega
  · rw [hmoved, hdrop]

/-- The common head and tail of two lists that differ in one place leave a part of each between them, with
as many elements as the lists have there. -/
theorem exists_middles_of_edit (head tail : List α) {old new : List α} (h : old.Disjoint new) :
    ∃ head' gone come tail', head ++ old ++ tail = head' ++ gone ++ tail' ∧
      head ++ new ++ tail = head' ++ come ++ tail' ∧ gone.length = old.length ∧
      come.length = new.length ∧ gone.Disjoint come ∧
      commonHead (gone ++ tail') (come ++ tail') = 0 := by
  cases old with
  | nil =>
    -- Nothing goes, so the common head may reach into what comes.
    obtain ⟨slid, moved, rest, htail, hnew, hlength, hhead⟩ := exists_slid new tail
    refine ⟨head ++ slid, [], moved, rest, ?_, ?_, rfl, hlength, List.disjoint_nil_left _, hhead⟩
    · simp [htail]
    · rw [List.append_assoc, hnew]
      simp
  | cons x old =>
    cases new with
    | nil =>
      -- A removal is an insertion read the other way round.
      obtain ⟨slid, moved, rest, htail, hold, hlength, hhead⟩ := exists_slid (x :: old) tail
      refine ⟨head ++ slid, moved, [], rest, ?_, ?_, hlength, rfl, List.disjoint_nil_right _, ?_⟩
      · rw [List.append_assoc, hold]
        simp
      · simp [htail]
      · rw [commonHead_comm, List.nil_append, hhead]
    | cons y new =>
      -- The first elements of both differ, and nothing slides.
      refine ⟨head, x :: old, y :: new, tail, rfl, rfl, rfl, rfl, h, ?_⟩
      rw [List.cons_append, List.cons_append, commonHead, if_neg (head_ne_of_disjoint h)]

/-- **The script of a local edit** keeps, removes, inserts and keeps, in this order, and removes and inserts
as many elements as the two lists have in the place where they differ. -/
theorem exists_script_of_edit (head tail : List α) {old new : List α} (h : old.Disjoint new) :
    ∃ head' gone come tail', head ++ old ++ tail = head' ++ gone ++ tail' ∧
      head ++ new ++ tail = head' ++ come ++ tail' ∧ gone.length = old.length ∧
      come.length = new.length ∧
      script (head ++ old ++ tail) (head ++ new ++ tail) = List.replicate head'.length keep ++
        (List.replicate gone.length remove ++ List.replicate come.length insert) ++
          List.replicate tail'.length keep := by
  obtain ⟨head', gone, come, tail', hold, hnew, hgone, hcome, hdisj, hhead⟩ :=
    exists_middles_of_edit head tail h
  refine ⟨head', gone, come, tail', hold, hnew, hgone, hcome, ?_⟩
  have htail : commonHead gone.reverse come.reverse = 0 := by
    apply commonHead_of_disjoint
    simpa using hdisj
  rw [hold, hnew, script_of_trimmed head' hhead htail, plannedScript_eq, best_of_disjoint hdisj]

end Edit

/-! ## One region -/

namespace Hunk

/-- Elements that are kept before any region only move the place of the first one. -/
theorem gather_keeps (n m : Nat) (head : List α) (steps : List Edit) (old new : List α) :
    gather (start n m) (List.replicate head.length .keep ++ steps) (head ++ old) (head ++ new) =
      gather (start (n + head.length) (m + head.length)) steps old new := by
  induction head generalizing n m with
  | nil => rfl
  | cons x head ih =>
    have hnext : (start n m : Hunk α).next = start (n + 1) (m + 1) := rfl
    have hnone : ∀ later, (start n m : Hunk α).consTo later = later := fun _ => rfl
    rw [List.length_cons, List.replicate_succ, List.cons_append, gather, List.cons_append,
      List.cons_append, List.tail_cons, List.tail_cons, hnext, ih, hnone, Nat.add_assoc,
      Nat.add_assoc, Nat.add_comm 1]

theorem gather_removes (h : Hunk α) (gone : List α) (steps : List Edit) (old new : List α) :
    gather h (List.replicate gone.length .remove ++ steps) (gone ++ old) new =
      gather (h.extend gone []) steps old new := by
  induction gone generalizing h with
  | nil => simp
  | cons x gone ih =>
    rw [List.length_cons, List.replicate_succ, List.cons_append, gather, List.cons_append,
      List.tail_cons, ih]
    simp [extend]

theorem gather_inserts (h : Hunk α) (come : List α) (steps : List Edit) (old new : List α) :
    gather h (List.replicate come.length .insert ++ steps) old (come ++ new) =
      gather (h.extend [] come) steps old new := by
  induction come generalizing h with
  | nil => simp
  | cons y come ih =>
    rw [List.length_cons, List.replicate_succ, List.cons_append, gather, List.cons_append,
      List.tail_cons, ih]
    simp [extend]

/-- **A local edit is one region**, with as many elements as the two lists have in the place where they
differ. -/
theorem exists_ofScript_of_edit [DecidableEq α] (head tail : List α) {old new : List α}
    (h : old.Disjoint new) (hne : old ≠ [] ∨ new ≠ []) : ∃ hunk : Hunk α,
      hunk.removed.length = old.length ∧ hunk.inserted.length = new.length ∧
      ofScript (Edit.script (head ++ old ++ tail) (head ++ new ++ tail)) (head ++ old ++ tail)
        (head ++ new ++ tail) = [hunk] := by
  obtain ⟨head', gone, come, tail', hold, hnew, hgone, hcome, hscript⟩ :=
    Edit.exists_script_of_edit head tail h
  refine ⟨⟨head'.length, head'.length, gone, come⟩, hgone, hcome, ?_⟩
  have hchange : gone ≠ [] ∨ come ≠ [] := by
    simpa [← List.length_pos_iff, hgone, hcome] using hne
  rw [hscript, hold, hnew, ofScript]
  simp only [List.append_assoc]
  rw [gather_keeps, gather_removes, gather_inserts, gather_replicate_keep,
    consTo_of_ne_nil (by simpa [extend, start] using hchange)]
  simp [extend, start]

end Hunk

/-! ## Texts -/

/-- A line with a sign before it does not look like a header. -/
theorem isPrefixOf_trim_cons {sign : Char} (hblank : Text.isBlank sign = false) (hsign : sign ≠ '@')
    (line : Text) : "@@".toList.isPrefixOf (Text.trim (sign :: line)) = false := by
  rw [Text.trim_cons hblank, Bool.eq_false_iff]
  intro h
  obtain ⟨rest, hrest⟩ := List.isPrefixOf_iff_prefix.1 h
  exact hsign (List.cons.inj hrest).1.symm

/-- Of the lines that show a difference with one region, the header of the region is the only one that looks
like a header. -/
theorem Hunk.filter_header (hunk : Hunk Text) (oldLabel newLabel : Text) :
    (Text.trim ("--- ".toList ++ oldLabel) :: Text.trim ("+++ ".toList ++ newLabel) ::
      hunk.render).filter ("@@".toList.isPrefixOf ·) = [hunk.header] := by
  have hheader : "@@".toList.isPrefixOf hunk.header = true := rfl
  have hminus := @isPrefixOf_trim_cons '-' (by decide) (by decide)
  have hplus := @isPrefixOf_trim_cons '+' (by decide) (by decide)
  have hold : "--- ".toList ++ oldLabel = '-' :: ("-- ".toList ++ oldLabel) := rfl
  have hnew : "+++ ".toList ++ newLabel = '+' :: ("++ ".toList ++ newLabel) := rfl
  rw [hold, hnew, render]
  simp only [List.filter_cons, List.filter_append, List.filter_map, Function.comp_def, hminus, hplus,
    hheader]
  simp

/-- **The difference after a local edit** has one header, whatever lines repeat. After the header come as
many lines with a minus sign as there are lines in the old text where it differs, and as many with a plus
sign as there are such lines in the new one. -/
theorem diffLines_of_local_edit {head tail gone come : List Text} (hdisj : gone.Disjoint come)
    (hne : gone ≠ [] ∨ come ≠ []) {old new : Text}
    (hold : Text.linesKept old = head ++ gone ++ tail)
    (hnew : Text.linesKept new = head ++ come ++ tail) (oldLabel newLabel : Text) :
    ∃ header removed inserted,
      diffLines old new oldLabel newLabel = Text.trim ("--- ".toList ++ oldLabel) ::
        Text.trim ("+++ ".toList ++ newLabel) :: header :: removed ++ inserted ∧
      (diffLines old new oldLabel newLabel).filter ("@@".toList.isPrefixOf ·) = [header] ∧
      removed.length = gone.length ∧ (∀ line ∈ removed, line.head? = some '-') ∧
      inserted.length = come.length ∧ ∀ line ∈ inserted, line.head? = some '+' := by
  obtain ⟨hunk, hremoved, hinserted, hhunk⟩ := Hunk.exists_ofScript_of_edit head tail hdisj hne
  have hlines : diffLines old new oldLabel newLabel = Text.trim ("--- ".toList ++ oldLabel) ::
      Text.trim ("+++ ".toList ++ newLabel) :: hunk.render := by
    simp only [diffLines, hold, hnew, hhunk, List.flatMap_singleton]
  have hminus : ∀ line, Text.trim ('-' :: line) = '-' :: Text.trimEnd line := Text.trim_cons (by decide)
  have hplus : ∀ line, Text.trim ('+' :: line) = '+' :: Text.trimEnd line := Text.trim_cons (by decide)
  refine ⟨hunk.header, hunk.removed.map (fun line => Text.trim ('-' :: line)),
    hunk.inserted.map (fun line => Text.trim ('+' :: line)), hlines, ?_, ?_, ?_, ?_, ?_⟩
  · rw [hlines, Hunk.filter_header]
  · rw [List.length_map, hremoved]
  · simp [hminus]
  · rw [List.length_map, hinserted]
  · simp [hplus]

/-- Two more copies of a line that stands on both sides of them. -/
theorem diffLines_of_repeated_lines :
    let line : Text := ['x', '\n']
    Text.linesKept "x\nx\ny".toList = [line] ++ [] ++ [line, ['y']] ∧
    Text.linesKept "x\nx\nx\nx\ny".toList = [line] ++ [line, line] ++ [line, ['y']] ∧
    ∃ header removed inserted,
      diffLines "x\nx\ny".toList "x\nx\nx\nx\ny".toList "old".toList "new".toList =
        "--- old".toList :: "+++ new".toList :: header :: removed ++ inserted ∧
      removed.length = 0 ∧ inserted.length = 2 ∧ ∀ line ∈ inserted, line.head? = some '+' := by
  intro line
  have hold : Text.linesKept "x\nx\ny".toList = [line] ++ [] ++ [line, ['y']] := by decide
  have hnew : Text.linesKept "x\nx\nx\nx\ny".toList = [line] ++ [line, line] ++ [line, ['y']] := by
    decide
  obtain ⟨header, removed, inserted, hlines, -, hremoved, -, hinserted, hplus⟩ :=
    diffLines_of_local_edit (List.disjoint_nil_left _) (.inr (by simp)) hold hnew "old".toList
      "new".toList
  exact ⟨hold, hnew, header, removed, inserted, hlines, hremoved, hinserted, hplus⟩

end RuleAudit
