import Mathlib.Data.List.Forall2
import Mathlib.Data.List.Infix
import RuleAudit.Diff.Script

/-!
# What a script does

A script is read from the front: each step keeps the head of both lists, removes the head of the old one
or inserts the head of the new one. The scripts that are built use up both lists.
-/

namespace RuleAudit.Edit

/-- The script turns the old list into the new one, step by step and without a rest. -/
inductive Turns {α : Type} : List Edit → List α → List α → Prop where
  | done : Turns [] [] []
  | keep {steps : List Edit} {old new : List α} (x : α) :
      Turns steps old new → Turns (.keep :: steps) (x :: old) (x :: new)
  | remove {steps : List Edit} {old new : List α} (x : α) :
      Turns steps old new → Turns (.remove :: steps) (x :: old) new
  | insert {steps : List Edit} {old new : List α} (y : α) :
      Turns steps old new → Turns (.insert :: steps) old (y :: new)

variable {α : Type}

/-- Scripts one after the other turn the lists one after the other. -/
theorem Turns.append {steps steps' : List Edit} {old new old' new' : List α}
    (h : Turns steps old new) (h' : Turns steps' old' new') :
    Turns (steps ++ steps') (old ++ old') (new ++ new') := by
  induction h with
  | done => exact h'
  | keep x _ ih => exact ih.keep x
  | remove x _ ih => exact ih.remove x
  | insert y _ ih => exact ih.insert y

theorem turns_replicate_keep (l : List α) : Turns (List.replicate l.length keep) l l := by
  induction l with
  | nil => exact .done
  | cons x l ih => exact ih.keep x

/-! ## Plans -/

/-- There is one plan for each suffix of the new list, and it turns the old list into that suffix. -/
def Planned (old new : List α) (plans : List Plan) : Prop :=
  List.Forall₂ (fun plan suffix => Turns plan.steps old suffix) plans new.tails

/-- The first plan is for the whole new list. -/
theorem Planned.exists_head {old new : List α} {plans : List Plan} (h : Planned old new plans) :
    ∃ plan shorter, plans = plan :: shorter ∧ Turns plan.steps old new := by
  have htails : new.tails = new :: new.tails.tail := by cases new <;> rfl
  rw [Planned, htails] at h
  obtain ⟨plan, shorter, hplan, -, rfl⟩ := List.forall₂_cons_right_iff.1 h
  exact ⟨plan, shorter, rfl, hplan⟩

theorem planned_insertions (new : List α) : Planned [] new (insertions new) := by
  induction new with
  | nil => exact .cons .done .nil
  | cons y new ih =>
    obtain ⟨plan, shorter, hplans, hplan⟩ := ih.exists_head
    rw [hplans] at ih
    rw [insertions, hplans]
    exact .cons (hplan.insert y) ih

variable [DecidableEq α]

/-- A plan made from plans for the three shorter pairs. -/
theorem turns_extend {x y : α} {old new : List α} {removed inserted both : Plan}
    (hremoved : Turns removed.steps old (y :: new))
    (hinserted : Turns inserted.steps (x :: old) new) (hboth : Turns both.steps old new) :
    Turns (extend x y removed inserted both).steps (x :: old) (y :: new) := by
  rw [extend]
  split
  next hxy =>
    subst hxy
    exact hboth.keep x
  next =>
    split
    · exact hremoved.remove x
    · exact hinserted.insert y

/-- Plans for one more old element, from those without it. -/
theorem planned_plansFor (x : α) {old new : List α} {plans : List Plan} (h : Planned old new plans) :
    Planned (x :: old) new (plansFor x new plans) := by
  induction new generalizing plans with
  | nil =>
    obtain ⟨removed, rest, hremoved, hrest, rfl⟩ := List.forall₂_cons_right_iff.1 h
    cases hrest
    exact .cons (hremoved.remove x) .nil
  | cons y new ih =>
    obtain ⟨removed, plans, hremoved, hplans, rfl⟩ := List.forall₂_cons_right_iff.1 h
    obtain ⟨both, shorter, rfl, hboth⟩ := Planned.exists_head hplans
    have hlonger := ih hplans
    obtain ⟨inserted, rest, hinto, hinserted⟩ := hlonger.exists_head
    rw [hinto] at hlonger
    rw [plansFor, hinto]
    exact .cons (turns_extend hremoved hinserted hboth) hlonger

theorem planned_plans (old new : List α) : Planned old new (plans old new) := by
  induction old with
  | nil => exact planned_insertions new
  | cons x old ih => exact planned_plansFor x ih

theorem turns_plannedScript (old new : List α) : Turns (plannedScript old new) old new := by
  obtain ⟨plan, shorter, hplans, hplan⟩ := (planned_plans old new).exists_head
  rwa [plannedScript, hplans]

/-! ## Common heads and tails -/

theorem take_commonHead (old new : List α) :
    old.take (commonHead old new) = new.take (commonHead old new) := by
  fun_induction commonHead old new with
  | case1 old y new ih => rw [List.take_succ_cons, List.take_succ_cons, ih]
  | case2 => rfl
  | case3 => rfl

theorem commonHead_le (old new : List α) : commonHead old new ≤ old.length := by
  fun_induction commonHead old new with
  | case1 old y new ih => exact Nat.succ_le_succ ih
  | case2 => exact Nat.zero_le _
  | case3 => exact Nat.zero_le _

theorem commonHead_le_right (old new : List α) : commonHead old new ≤ new.length := by
  fun_induction commonHead old new with
  | case1 old y new ih => exact Nat.succ_le_succ ih
  | case2 => exact Nat.zero_le _
  | case3 => exact Nat.zero_le _

theorem commonHead_self (l : List α) : commonHead l l = l.length := by
  induction l with
  | nil => rfl
  | cons x l ih => rw [commonHead, if_pos rfl, ih, List.length_cons]

/-- The common tail of two lists is their end. -/
theorem drop_commonTail (old new : List α) :
    old.drop (old.length - commonHead old.reverse new.reverse) =
      new.drop (new.length - commonHead old.reverse new.reverse) := by
  have h := congrArg List.reverse (take_commonHead old.reverse new.reverse)
  rwa [List.take_reverse, List.take_reverse, List.reverse_reverse, List.reverse_reverse] at h

theorem length_take_commonHead (old new : List α) :
    (old.take (commonHead old new)).length = commonHead old new := by
  rw [List.length_take, Nat.min_eq_left (commonHead_le old new)]

theorem length_drop_commonTail (old new : List α) :
    (old.drop (old.length - commonHead old.reverse new.reverse)).length =
      commonHead old.reverse new.reverse := by
  have hle := commonHead_le old.reverse new.reverse
  rw [List.length_reverse] at hle
  rw [List.length_drop, Nat.sub_sub_self hle]

/-- Two lists without their common tail. -/
theorem exists_middles (old new : List α) : ∃ oldMiddle newMiddle tail,
    old = oldMiddle ++ tail ∧ new = newMiddle ++ tail ∧
      tail.length = commonHead old.reverse new.reverse ∧
      old.take (old.length - commonHead old.reverse new.reverse) = oldMiddle ∧
      new.take (new.length - commonHead old.reverse new.reverse) = newMiddle := by
  refine ⟨_, _, old.drop (old.length - commonHead old.reverse new.reverse), ?_, ?_,
    length_drop_commonTail old new, rfl, rfl⟩
  · rw [List.take_append_drop]
  · rw [drop_commonTail, List.take_append_drop]

/-- The script of two lists keeps a common head and a common tail and plans what is between them. -/
theorem exists_trimmed (old new : List α) : ∃ head oldMiddle newMiddle tail,
    old = head ++ oldMiddle ++ tail ∧ new = head ++ newMiddle ++ tail ∧
      script old new = List.replicate head.length keep ++ plannedScript oldMiddle newMiddle ++
        List.replicate tail.length keep := by
  obtain ⟨oldMiddle, newMiddle, tail, hold, hnew, htail, holdMiddle, hnewMiddle⟩ :=
    exists_middles (old.drop (commonHead old new)) (new.drop (commonHead old new))
  refine ⟨old.take (commonHead old new), oldMiddle, newMiddle, tail, ?_, ?_, ?_⟩
  · rw [List.append_assoc, ← hold, List.take_append_drop]
  · rw [take_commonHead, List.append_assoc, ← hnew, List.take_append_drop]
  · rw [script, length_take_commonHead, htail, ← holdMiddle, ← hnewMiddle]

/-- **The script of two lists** turns the one into the other. -/
theorem turns_script (old new : List α) : Turns (script old new) old new := by
  obtain ⟨head, oldMiddle, newMiddle, tail, rfl, rfl, hscript⟩ := exists_trimmed old new
  rw [hscript]
  exact ((turns_replicate_keep head).append (turns_plannedScript oldMiddle newMiddle)).append
    (turns_replicate_keep tail)

/-- **The script of a list and itself** keeps everything. -/
theorem script_self (l : List α) : script l l = List.replicate l.length keep := by
  simp [script, commonHead_self, plannedScript, plans, insertions]

end RuleAudit.Edit
