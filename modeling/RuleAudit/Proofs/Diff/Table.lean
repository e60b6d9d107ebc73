import RuleAudit.Proofs.Diff.Plans

/-!
# Scripts by a flat table

A script can also be read off one flat table that has, row after row, a cell for each pair of suffixes of
the two lists. The table is filled from its last cell to its first one and then walked through from the
first cell on. Here every subtraction, slice and access is checked and gives nothing when it is out of
range. None ever is, and what is read off is the script of the plans.
-/

namespace RuleAudit.Edit

variable {α : Type}

/-! ## Checked accesses -/

/-- A difference, unless it is below zero. -/
def less? (n k : Nat) : Option Nat := if k ≤ n then some (n - k) else none

/-- The elements from one position to another, unless a position is out of range. -/
def slice? (l : List α) (start stop : Nat) : Option (List α) :=
  if start ≤ stop ∧ stop ≤ l.length then some ((l.take stop).drop start) else none

/-- The table with another value at a position, unless the position is out of range. -/
def put? (table : List Nat) (k value : Nat) : Option (List Nat) :=
  if k < table.length then some (table.set k value) else none

theorem less?_of_le {n k : Nat} (h : k ≤ n) : less? n k = some (n - k) := if_pos h

theorem slice?_of_le {l : List α} {start stop : Nat} (h : start ≤ stop) (h' : stop ≤ l.length) :
    slice? l start stop = some ((l.take stop).drop start) :=
  if_pos ⟨h, h'⟩

/-! ## The program -/

/-- The position of the cell of row `i` and column `j`. -/
def slot (new : List α) (i j : Nat) : Nat := i * (new.length + 1) + j

variable [DecidableEq α]

/-- A cell gets its value from the next row and from the next column. -/
def fillCell? (old new : List α) (i j : Nat) (table : List Nat) : Option (List Nat) := do
  let x ← old[i]?
  let y ← new[j]?
  if x = y then
    let both ← table[slot new (i + 1) (j + 1)]?
    put? table (slot new i j) (both + 1)
  else
    let removed ← table[slot new (i + 1) j]?
    let inserted ← table[slot new i (j + 1)]?
    put? table (slot new i j) (max removed inserted)

/-- The cells of a row before column `j`, from the last one to the first. -/
def fillRow? (old new : List α) (i : Nat) : Nat → List Nat → Option (List Nat)
  | 0, table => some table
  | j + 1, table => (fillCell? old new i j table).bind (fillRow? old new i j)

/-- The rows before row `i`, from the last one to the first. -/
def fillRows? (old new : List α) : Nat → List Nat → Option (List Nat)
  | 0, table => some table
  | i + 1, table => (fillRow? old new i new.length table).bind (fillRows? old new i)

/-- The table of two lists, filled from zeros. -/
def table? (old new : List α) : Option (List Nat) :=
  fillRows? old new old.length (List.replicate ((old.length + 1) * (new.length + 1)) 0)

/-- The steps from row `i` and column `j` on. Behind the last row or column only one kind of step is
left. -/
def walk? (old new : List α) (table : List Nat) (i j : Nat) : Option (List Edit) :=
  if i < old.length ∧ j < new.length then do
    let x ← old[i]?
    let y ← new[j]?
    if x = y then
      return .keep :: (← walk? old new table (i + 1) (j + 1))
    else
      let removed ← table[slot new (i + 1) j]?
      let inserted ← table[slot new i (j + 1)]?
      if inserted ≤ removed then return .remove :: (← walk? old new table (i + 1) j)
      else return .insert :: (← walk? old new table i (j + 1))
  else do
    return List.replicate (← less? old.length i) .remove ++
      List.replicate (← less? new.length j) .insert
termination_by (old.length - i) + (new.length - j)

/-- The script that the table alone gives. -/
def tableScript? (old new : List α) : Option (List Edit) :=
  (table? old new).bind fun table => walk? old new table 0 0

/-- The script by a table, which spans only what is between the common head and the common tail. -/
def checkedScript? (old new : List α) : Option (List Edit) := do
  let head := commonHead old new
  let oldRest ← slice? old head old.length
  let newRest ← slice? new head new.length
  let tail := commonHead oldRest.reverse newRest.reverse
  let oldMiddle ← slice? old head (← less? old.length tail)
  let newMiddle ← slice? new head (← less? new.length tail)
  let steps ← tableScript? oldMiddle newMiddle
  return List.replicate head .keep ++ steps ++ List.replicate tail .keep

/-! ## Positions -/

omit [DecidableEq α] in
theorem slot_lt {old new : List α} {i j : Nat} (hi : i ≤ old.length) (hj : j ≤ new.length) :
    slot new i j < (old.length + 1) * (new.length + 1) := by
  have hrow : (i + 1) * (new.length + 1) ≤ (old.length + 1) * (new.length + 1) :=
    Nat.mul_le_mul_right _ (Nat.succ_le_succ hi)
  rw [Nat.succ_mul] at hrow
  rw [slot]
  omega

omit [DecidableEq α] in
/-- Different cells have different positions. -/
theorem slot_inj {new : List α} {i j i' j' : Nat} (hj : j ≤ new.length) (hj' : j' ≤ new.length)
    (h : slot new i j = slot new i' j') : i = i' ∧ j = j' := by
  have hrow : ∀ k l : Nat, l ≤ new.length → slot new k l / (new.length + 1) = k := by
    intro k l hl
    rw [slot, Nat.mul_comm, Nat.mul_add_div (Nat.succ_pos _),
      Nat.div_eq_of_lt (Nat.lt_succ_of_le hl), Nat.add_zero]
  have hi : i = i' := by rw [← hrow i j hj, h, hrow i' j' hj']
  subst hi
  exact ⟨rfl, Nat.add_left_cancel h⟩

/-! ## Filling -/

/-- The cells from row `i` and column `j` on have their values, and the last column still has its
zeros. -/
structure Filled (old new : List α) (table : List Nat) (i j : Nat) : Prop where
  size : table.length = (old.length + 1) * (new.length + 1)
  edge : ∀ i' ≤ old.length, table[slot new i' new.length]? = some 0
  /-- A cell has the number of elements that the best plan keeps. -/
  cells : ∀ i' j', i' ≤ old.length → j' ≤ new.length → i < i' ∨ i' = i ∧ j ≤ j' →
    table[slot new i' j']? = some (best (old.drop i') (new.drop j')).kept

namespace Filled

variable {old new : List α} {table : List Nat} {i j : Nat}

theorem zeros (old new : List α) :
    Filled old new (List.replicate ((old.length + 1) * (new.length + 1)) 0) old.length 0 where
  size := List.length_replicate
  edge i' hi' := by rw [List.getElem?_replicate, if_pos (slot_lt hi' le_rfl)]
  cells i' j' hi' hj' hfrom := by
    obtain rfl : i' = old.length := by omega
    rw [List.getElem?_replicate, if_pos (slot_lt hi' hj'), List.drop_length, best_nil_left]

/-- The row before a full one, so far only with its last cell. -/
theorem row (h : Filled old new table (i + 1) 0) : Filled old new table i new.length where
  size := h.size
  edge := h.edge
  cells i' j' hi' hj' hfrom := by
    by_cases hrow : i < i'
    · exact h.cells i' j' hi' hj' (by omega)
    · obtain rfl : j' = new.length := by omega
      rw [h.edge i' hi', List.drop_length, best_nil_right]

/-- One more cell with its value. -/
theorem put (h : Filled old new table i (j + 1)) (hi : i ≤ old.length) (hj : j < new.length) :
    ∃ table', put? table (slot new i j) (best (old.drop i) (new.drop j)).kept = some table' ∧
      Filled old new table' i j := by
  have hlt : slot new i j < table.length := h.size ▸ slot_lt hi hj.le
  have hother : ∀ {i' j'}, j' ≤ new.length → ¬ (i' = i ∧ j' = j) → ∀ value,
      (table.set (slot new i j) value)[slot new i' j']? = table[slot new i' j']? := by
    intro i' j' hj' hne value
    refine List.getElem?_set_ne fun heq => hne ?_
    obtain ⟨rfl, rfl⟩ := slot_inj hj.le hj' heq
    exact ⟨rfl, rfl⟩
  refine ⟨_, if_pos hlt, ⟨by rw [List.length_set, h.size], fun i' hi' => ?_,
    fun i' j' hi' hj' hfrom => ?_⟩⟩
  · rw [hother le_rfl (by omega), h.edge i' hi']
  · by_cases hcell : i' = i ∧ j' = j
    · obtain ⟨rfl, rfl⟩ := hcell
      rw [List.getElem?_set_self hlt]
    · rw [hother hj' hcell, h.cells i' j' hi' hj' (by omega)]

/-- **Filling a cell** is in range and leaves it with its value. -/
theorem fillCell (h : Filled old new table i (j + 1)) (hi : i < old.length) (hj : j < new.length) :
    ∃ table', fillCell? old new i j table = some table' ∧ Filled old new table' i j := by
  obtain ⟨table', hput, hfilled⟩ := h.put hi.le hj
  refine ⟨table', ?_, hfilled⟩
  rw [← hput, List.drop_eq_getElem_cons hi, List.drop_eq_getElem_cons hj, best, kept_extend,
    ← List.drop_eq_getElem_cons hi, ← List.drop_eq_getElem_cons hj]
  have hboth := h.cells (i + 1) (j + 1) hi hj (by omega)
  have hremoved := h.cells (i + 1) j hi hj.le (by omega)
  have hinserted := h.cells i (j + 1) hi.le hj (by omega)
  simp only [fillCell?, List.getElem?_eq_getElem hi, List.getElem?_eq_getElem hj, hboth, hremoved,
    hinserted, Option.bind_eq_bind, Option.bind_some]
  split <;> rfl

/-- A row is filled from some cell back to its first one. -/
theorem fillRow (h : Filled old new table i j) (hi : i < old.length) (hj : j ≤ new.length) :
    ∃ table', fillRow? old new i j table = some table' ∧ Filled old new table' i 0 := by
  induction j generalizing table with
  | zero => exact ⟨table, rfl, h⟩
  | succ j ih =>
    obtain ⟨next, hnext, hfilled⟩ := h.fillCell hi hj
    rw [fillRow?, hnext, Option.bind_some]
    exact ih hfilled (by omega)

/-- The rows are filled from some row back to the first one. -/
theorem fillRows (h : Filled old new table i 0) (hi : i ≤ old.length) :
    ∃ table', fillRows? old new i table = some table' ∧ Filled old new table' 0 0 := by
  induction i generalizing table with
  | zero => exact ⟨table, rfl, h⟩
  | succ i ih =>
    obtain ⟨next, hnext, hfilled⟩ := h.row.fillRow hi le_rfl
    rw [fillRows?, hnext, Option.bind_some]
    exact ih hfilled (by omega)

/-- The table of two lists can be filled. -/
theorem exists_table (old new : List α) :
    ∃ table, table? old new = some table ∧ Filled old new table 0 0 :=
  (zeros old new).fillRows le_rfl

/-! ## Walking -/

/-- **A walk through a filled table** is in range and follows the best plans. -/
theorem walk (h : Filled old new table 0 0) (hi : i ≤ old.length) (hj : j ≤ new.length) :
    walk? old new table i j = some (best (old.drop i) (new.drop j)).steps := by
  induction hleft : (old.length - i) + (new.length - j) using Nat.strong_induction_on
    generalizing i j with
  | _ left ih =>
    rw [walk?]
    by_cases hin : i < old.length ∧ j < new.length
    · rw [if_pos hin]
      obtain ⟨hi, hj⟩ := hin
      have hboth := ih _ (by omega) (i := i + 1) (j := j + 1) hi hj rfl
      have hremoved := ih _ (by omega) (i := i + 1) (j := j) hi hj.le rfl
      have hinserted := ih _ (by omega) (i := i) (j := j + 1) hi.le hj rfl
      have hbelow := h.cells (i + 1) j hi hj.le (by omega)
      have hright := h.cells i (j + 1) hi.le hj (by omega)
      rw [List.drop_eq_getElem_cons hi, List.drop_eq_getElem_cons hj, best, extend,
        ← List.drop_eq_getElem_cons hi, ← List.drop_eq_getElem_cons hj]
      simp only [List.getElem?_eq_getElem hi, List.getElem?_eq_getElem hj, hboth, hremoved,
        hinserted, hbelow, hright, Option.bind_eq_bind, Option.bind_some]
      split
      · rfl
      · split <;> rfl
    · rw [if_neg hin, less?_of_le hi, less?_of_le hj]
      -- One of the two lists is used up.
      rcases Nat.lt_or_ge i old.length with hlt | hge
      · obtain rfl : j = new.length := by omega
        simp
      · obtain rfl : i = old.length := by omega
        simp

end Filled

/-! ## The script -/

omit [DecidableEq α] in
/-- The slice between a head and a tail that do not overlap. -/
theorem slice?_middle {l : List α} {head tail : Nat} (h : head ≤ l.length)
    (h' : tail ≤ l.length - head) : slice? l head (l.length - tail) =
      some ((l.drop head).take ((l.drop head).length - tail)) := by
  rw [slice?_of_le (by omega) (Nat.sub_le _ _), List.drop_take, List.length_drop,
    Nat.sub_right_comm]

/-- The table alone gives the script of the plans. -/
theorem tableScript_eq (old new : List α) : tableScript? old new = some (plannedScript old new) := by
  obtain ⟨table, htable, hfilled⟩ := Filled.exists_table old new
  rw [tableScript?, htable, Option.bind_some, hfilled.walk (Nat.zero_le _) (Nat.zero_le _),
    plannedScript_eq, List.drop_zero, List.drop_zero]

/-- **Nothing is ever out of range**, and the script by a table is that of the plans. -/
theorem checkedScript_eq (old new : List α) : checkedScript? old new = some (script old new) := by
  have hold := commonHead_le old new
  have hnew := commonHead_le_right old new
  have holdTail := commonHead_le (old.drop (commonHead old new)).reverse
    (new.drop (commonHead old new)).reverse
  have hnewTail := commonHead_le_right (old.drop (commonHead old new)).reverse
    (new.drop (commonHead old new)).reverse
  rw [List.length_reverse, List.length_drop] at holdTail hnewTail
  have holdLess := less?_of_le (holdTail.trans (Nat.sub_le _ _))
  have hnewLess := less?_of_le (hnewTail.trans (Nat.sub_le _ _))
  simp only [checkedScript?, slice?_of_le hold le_rfl, slice?_of_le hnew le_rfl, List.take_length,
    Option.bind_eq_bind, Option.bind_some, holdLess, hnewLess, slice?_middle hold holdTail,
    slice?_middle hnew hnewTail, tableScript_eq]
  rfl

end RuleAudit.Edit
