import RuleAudit.Proofs.Diff.Turns

/-!
# Best plans

Whatever turns one list into another keeps a common subsequence of both and changes the rest, so a script
is shortest exactly when it keeps most. The plans that are made row by row are those of a recursion on both
lists at once, and the plan of that recursion keeps a longest common subsequence.
-/

namespace RuleAudit.Edit

variable {α : Type} {steps : List Edit} {old new : List α}

/-! ## What a script keeps -/

/-- The number of elements that are removed or inserted. -/
def changes (steps : List Edit) : Nat := steps.count .remove + steps.count .insert

theorem Turns.length_old (h : Turns steps old new) :
    steps.count .keep + steps.count .remove = old.length := by
  induction h with
  | done => rfl
  | keep x _ ih | remove x _ ih | insert y _ ih =>
    simp only [List.count_cons, List.length_cons, ← ih]
    simp +arith

theorem Turns.length_new (h : Turns steps old new) :
    steps.count .keep + steps.count .insert = new.length := by
  induction h with
  | done => rfl
  | keep x _ ih | remove x _ ih | insert y _ ih =>
    simp only [List.count_cons, List.length_cons, ← ih]
    simp +arith

/-- A script keeps a common subsequence. -/
theorem Turns.exists_common (h : Turns steps old new) :
    ∃ l : List α, l.Sublist old ∧ l.Sublist new ∧ l.length = steps.count .keep := by
  induction h with
  | done => exact ⟨[], .slnil, .slnil, rfl⟩
  | keep x _ ih =>
    obtain ⟨l, hold, hnew, hl⟩ := ih
    exact ⟨x :: l, hold.cons_cons x, hnew.cons_cons x, by simp [hl]⟩
  | remove x _ ih =>
    obtain ⟨l, hold, hnew, hl⟩ := ih
    exact ⟨l, hold.cons x, hnew, by simp [hl]⟩
  | insert y _ ih =>
    obtain ⟨l, hold, hnew, hl⟩ := ih
    exact ⟨l, hold, hnew.cons y, by simp [hl]⟩

/-- A script that keeps as many elements as another one changes no more. -/
theorem Turns.changes_le {steps' : List Edit} (h : Turns steps old new) (h' : Turns steps' old new)
    (hkeep : steps'.count .keep ≤ steps.count .keep) : changes steps ≤ changes steps' := by
  have hold := h.length_old
  have hnew := h.length_new
  have hold' := h'.length_old
  have hnew' := h'.length_new
  rw [changes, changes]
  omega

/-! ## The best plan -/

variable [DecidableEq α]

/-- The plan for two lists, by recursion on both. -/
def best : List α → List α → Plan
  | [], new => ⟨0, List.replicate new.length .insert⟩
  | _ :: old, [] => ⟨0, List.replicate (old.length + 1) .remove⟩
  | x :: old, y :: new => extend x y (best old (y :: new)) (best (x :: old) new) (best old new)

@[simp] theorem best_nil_left (new : List α) :
    best [] new = ⟨0, List.replicate new.length .insert⟩ := by
  rw [best]

@[simp] theorem best_nil_right (old : List α) :
    best old [] = ⟨0, List.replicate old.length .remove⟩ := by
  cases old <;> simp [best]

/-- The first of the plans for all suffixes is the one for the whole list. -/
theorem map_best_tails (old new : List α) :
    ∃ shorter, new.tails.map (best old) = best old new :: shorter := by
  cases new with
  | nil => exact ⟨[], rfl⟩
  | cons y new => exact ⟨_, rfl⟩

theorem insertions_eq (new : List α) : insertions new = new.tails.map (best []) := by
  induction new with
  | nil => simp [insertions]
  | cons y new ih =>
    obtain ⟨shorter, hshorter⟩ := map_best_tails [] new
    rw [insertions, ih, List.tails_cons, List.map_cons, hshorter]
    simp [List.replicate_succ]

/-- One more old element: from the best plans without it to those with it. -/
theorem plansFor_eq (x : α) (old new : List α) :
    plansFor x new (new.tails.map (best old)) = new.tails.map (best (x :: old)) := by
  induction new with
  | nil => simp [plansFor, List.replicate_succ]
  | cons y new ih =>
    obtain ⟨both, hboth⟩ := map_best_tails old new
    obtain ⟨inserted, hinserted⟩ := map_best_tails (x :: old) new
    rw [List.tails_cons, List.map_cons, List.map_cons, hinserted, hboth, plansFor, ← hboth, ih,
      hinserted, best]

/-- The plans of all suffixes are the best ones. -/
theorem plans_eq (old new : List α) : plans old new = new.tails.map (best old) := by
  induction old with
  | nil => exact insertions_eq new
  | cons x old ih => rw [plans, ih, plansFor_eq]

/-- Dynamic programming finds the script of the best plan. -/
theorem plannedScript_eq (old new : List α) : plannedScript old new = (best old new).steps := by
  obtain ⟨shorter, hshorter⟩ := map_best_tails old new
  rw [plannedScript, plans_eq, hshorter]

/-! ## What the best plan keeps -/

/-- The plan of two nonempty lists keeps the equal heads, or the better of two shorter plans. -/
theorem kept_extend (x y : α) (removed inserted both : Plan) :
    (extend x y removed inserted both).kept =
      if x = y then both.kept + 1 else max removed.kept inserted.kept := by
  rw [extend]
  split
  next => rfl
  next =>
    split
    next hle => exact (max_eq_left hle).symm
    next hlt => exact (max_eq_right (Nat.le_of_not_le hlt)).symm

theorem count_keep_extend {x y : α} {removed inserted both : Plan}
    (hremoved : removed.steps.count .keep = removed.kept)
    (hinserted : inserted.steps.count .keep = inserted.kept)
    (hboth : both.steps.count .keep = both.kept) :
    (extend x y removed inserted both).steps.count .keep =
      (extend x y removed inserted both).kept := by
  rw [extend]
  split
  · simp [hboth]
  · split
    · simp [hremoved]
    · simp [hinserted]

/-- A plan counts what its script keeps. -/
theorem count_keep_best (old new : List α) :
    (best old new).steps.count .keep = (best old new).kept := by
  fun_induction best old new with
  | case1 new => simp [List.count_replicate]
  | case2 => simp [List.count_replicate]
  | case3 x old y new hremoved hinserted hboth =>
    exact count_keep_extend hremoved hinserted hboth

omit [DecidableEq α] in
/-- A common subsequence of lists with different heads leaves out one of the heads. -/
theorem sublist_or_sublist {x y : α} (hne : x ≠ y) {l : List α} (hold : l.Sublist (x :: old))
    (hnew : l.Sublist (y :: new)) : l.Sublist old ∨ l.Sublist new := by
  rcases List.sublist_cons_iff.1 hold with hold | ⟨rest, rfl, hrest⟩
  · exact .inl hold
  · -- The subsequence starts with `x`, so it cannot start with `y`.
    rcases List.sublist_cons_iff.1 hnew with hnew | ⟨rest', heq, -⟩
    · exact .inr hnew
    · exact absurd (List.cons.inj heq).1 hne

/-- **No common subsequence is longer** than what the best plan keeps. -/
theorem length_le_kept_best {l : List α} (hold : l.Sublist old) (hnew : l.Sublist new) :
    l.length ≤ (best old new).kept := by
  fun_induction best old new generalizing l with
  | case1 => simp [List.sublist_nil.1 hold]
  | case2 => simp [List.sublist_nil.1 hnew]
  | case3 x old y new hremoved hinserted hboth =>
    rw [kept_extend]
    by_cases hxy : x = y
    · rw [if_pos hxy]
      have htail := hboth hold.tail hnew.tail
      rw [List.length_tail] at htail
      omega
    · rw [if_neg hxy]
      rcases sublist_or_sublist hxy hold hnew with h | h
      · exact (hremoved h hnew).trans (le_max_left _ _)
      · exact (hinserted hold h).trans (le_max_right _ _)

end RuleAudit.Edit
