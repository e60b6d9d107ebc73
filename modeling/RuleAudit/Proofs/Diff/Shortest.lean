import RuleAudit.Proofs.Diff.Table

/-!
# Shortest scripts

A common head and a common tail can be kept without loss: whatever two lists have in common besides is a
common subsequence of what is between them. So the script that cuts them off keeps a longest common
subsequence of the whole lists, although it need not be the script that dynamic programming finds for them.
-/

namespace RuleAudit.Edit

variable {α : Type}

/-! ## Common heads and tails -/

/-- What is left of a common subsequence behind a common head. -/
theorem exists_common_behind {head old new l : List α} (hold : l.Sublist (head ++ old))
    (hnew : l.Sublist (head ++ new)) :
    ∃ l' : List α, l'.Sublist old ∧ l'.Sublist new ∧ l.length ≤ head.length + l'.length := by
  refine ⟨l.drop head.length, ?_, ?_, ?_⟩
  · simpa using hold.drop head.length
  · simpa using hnew.drop head.length
  · rw [List.length_drop]
    omega

/-- What is left of a common subsequence before a common tail. -/
theorem exists_common_before {tail old new l : List α} (hold : l.Sublist (old ++ tail))
    (hnew : l.Sublist (new ++ tail)) :
    ∃ l' : List α, l'.Sublist old ∧ l'.Sublist new ∧ l.length ≤ l'.length + tail.length := by
  have hold' := hold.reverse
  have hnew' := hnew.reverse
  rw [List.reverse_append] at hold' hnew'
  obtain ⟨l', hold', hnew', hlength⟩ := exists_common_behind hold' hnew'
  refine ⟨l'.reverse, ?_, ?_, ?_⟩
  · simpa using hold'.reverse
  · simpa using hnew'.reverse
  · rw [List.length_reverse, List.length_reverse] at hlength
    rw [List.length_reverse]
    omega

/-! ## The script -/

variable [DecidableEq α] {old new : List α}

/-- **No common subsequence is longer** than what the script keeps. -/
theorem length_le_kept_script {l : List α} (hold : l.Sublist old) (hnew : l.Sublist new) :
    l.length ≤ (script old new).count .keep := by
  obtain ⟨head, oldMiddle, newMiddle, tail, rfl, rfl, hscript⟩ := exists_trimmed old new
  obtain ⟨l', hold', hnew', hl'⟩ := exists_common_before hold hnew
  obtain ⟨m, hmOld, hmNew, hm⟩ := exists_common_behind hold' hnew'
  have hbest := length_le_kept_best hmOld hmNew
  have hkept : (script (head ++ oldMiddle ++ tail) (head ++ newMiddle ++ tail)).count .keep =
      head.length + (best oldMiddle newMiddle).kept + tail.length := by
    rw [hscript, plannedScript_eq, List.count_append, List.count_append, count_keep_best,
      List.count_replicate_self, List.count_replicate_self]
  omega

/-- **The script of two lists** is valid and shortest: step by step it uses up both lists and keeps only
equal elements, no script that does so changes less, and what it keeps is a longest common subsequence of
the whole lists. The same script comes out of the flat table with every subtraction, slice and access
checked, so none of these is ever out of range. -/
theorem shortest_script (old new : List α) :
    Turns (script old new) old new ∧
    (∀ steps, Turns steps old new → changes (script old new) ≤ changes steps) ∧
    (∃ l : List α, l.Sublist old ∧ l.Sublist new ∧ l.length = (script old new).count .keep) ∧
    (∀ l : List α, l.Sublist old → l.Sublist new → l.length ≤ (script old new).count .keep) ∧
    checkedScript? old new = some (script old new) := by
  have hturns := turns_script old new
  refine ⟨hturns, fun steps hsteps => ?_, hturns.exists_common,
    fun l hold hnew => length_le_kept_script hold hnew, checkedScript_eq old new⟩
  obtain ⟨l, hold, hnew, hl⟩ := hsteps.exists_common
  exact hturns.changes_le hsteps (hl ▸ length_le_kept_script hold hnew)

/-- Where lines repeat, cutting off the common tail keeps another line than dynamic programming does, but
not fewer of them. -/
theorem shortest_script_of_repeats :
    script [1, 2, 1, 1] [1, 1] = [.keep, .remove, .remove, .keep] ∧
    plannedScript [1, 2, 1, 1] [1, 1] = [.keep, .remove, .keep, .remove] ∧
    Turns (plannedScript [1, 2, 1, 1] [1, 1]) [1, 2, 1, 1] [1, 1] ∧
    changes (script [1, 2, 1, 1] [1, 1]) ≤ changes (plannedScript [1, 2, 1, 1] [1, 1]) ∧
    [1, 1].Sublist [1, 2, 1, 1] ∧
    [1, 1].length ≤ (script [1, 2, 1, 1] [1, 1]).count .keep ∧
    checkedScript? [1, 2, 1, 1] [1, 1] = some [.keep, .remove, .remove, .keep] := by
  have hscript : script [1, 2, 1, 1] [1, 1] = [.keep, .remove, .remove, .keep] := by decide
  have hplanned := turns_plannedScript [1, 2, 1, 1] [1, 1]
  have hcommon : [1, 1].Sublist [1, 2, 1, 1] := by decide
  obtain ⟨-, hshortest, -, hlongest, hchecked⟩ := shortest_script [1, 2, 1, 1] [1, 1]
  exact ⟨hscript, by decide, hplanned, hshortest _ hplanned, hcommon,
    hlongest _ hcommon (List.Sublist.refl _), hscript ▸ hchecked⟩

end RuleAudit.Edit
