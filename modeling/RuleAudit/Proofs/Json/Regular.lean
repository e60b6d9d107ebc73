import RuleAudit.Json.Reader

/-!
# What reading gives

A document that was read from a text has no object with a key twice, and its integers fit 64 bits. So the
members of an object can be told by their keys alone, in whatever order they stand.
-/

namespace RuleAudit.Json

/-! ## Members -/

/-- The keys of some members, in their order. -/
def keys (members : List (Text × Json)) : List Text := members.map Prod.fst

theorem mem_put {key : Text} {value : Json} {members : List (Text × Json)} {m : Text × Json}
    (h : m ∈ put key value members) : m = (key, value) ∨ m ∈ members := by
  induction members with
  | nil => simpa [put] using h
  | cons first rest ih =>
    obtain ⟨k, v⟩ := first
    rw [put] at h
    split at h
    next hk =>
      subst hk
      rcases List.mem_cons.1 h with rfl | h
      · exact .inl rfl
      · exact .inr (List.mem_cons_of_mem _ h)
    next =>
      rcases List.mem_cons.1 h with rfl | h
      · exact .inr List.mem_cons_self
      · exact (ih h).imp_right (List.mem_cons_of_mem _)

theorem mem_keys_put {key k : Text} {value : Json} {members : List (Text × Json)}
    (h : k ∈ keys (put key value members)) : k = key ∨ k ∈ keys members := by
  obtain ⟨m, hm, rfl⟩ := List.mem_map.1 h
  rcases mem_put hm with rfl | hm
  · exact .inl rfl
  · exact .inr (List.mem_map_of_mem hm)

/-- Setting the value of a key gives no key twice. -/
theorem nodup_keys_put {key : Text} {value : Json} {members : List (Text × Json)}
    (h : (keys members).Nodup) : (keys (put key value members)).Nodup := by
  induction members with
  | nil => simp [put, keys]
  | cons first rest ih =>
    obtain ⟨k, v⟩ := first
    obtain ⟨hk, hrest⟩ := List.nodup_cons.1 h
    rw [put]
    split
    next => exact h
    next hne =>
      refine List.nodup_cons.2 ⟨?_, ih hrest⟩
      intro hmem
      exact (mem_keys_put hmem).elim hne hk

theorem mem_of_member? {key : Text} {value : Json} {members : List (Text × Json)}
    (h : member? key members = some value) : (key, value) ∈ members := by
  induction members with
  | nil => cases h
  | cons first rest ih =>
    obtain ⟨k, v⟩ := first
    rw [member?] at h
    split at h
    next hk =>
      cases h
      exact hk ▸ List.mem_cons_self
    next => exact List.mem_cons_of_mem _ (ih h)

theorem member?_eq_none_iff {key : Text} {members : List (Text × Json)} :
    member? key members = none ↔ key ∉ keys members := by
  induction members with
  | nil => simp [member?, keys]
  | cons first rest ih =>
    obtain ⟨k, v⟩ := first
    rw [member?, keys, List.map_cons, List.mem_cons, not_or, ← keys]
    by_cases hk : k = key
    · simp [hk]
    · simp [hk, ih, Ne.symm hk]

/-! ## Regular documents -/

/-- A number as reading gives it: a signed or unsigned integer of 64 bits, or a real. -/
inductive IsNumber : Json → Prop where
  | integer {i : Int} : -(Nat.pow 2 63 : Int) ≤ i → i ≤ maxSignificand → IsNumber (.integer i)
  | real (x : Binary64) : IsNumber (.real x)

/-- A document without repeated keys, with numbers as reading gives them, and so are all its parts. -/
inductive Regular : Json → Prop where
  | null : Regular .null
  | bool (b : Bool) : Regular (.bool b)
  | number {doc : Json} : IsNumber doc → Regular doc
  | string (s : Text) : Regular (.string s)
  | array {items : List Json} : (∀ item ∈ items, Regular item) → Regular (.array items)
  | object {members : List (Text × Json)} : (keys members).Nodup →
      (∀ m ∈ members, Regular m.2) → Regular (.object members)

namespace Regular

theorem items {items : List Json} (h : Regular (.array items)) : ∀ item ∈ items, Regular item := by
  cases h with
  | number h => cases h
  | array h => exact h

theorem members {members : List (Text × Json)} (h : Regular (.object members)) :
    (keys members).Nodup ∧ ∀ m ∈ members, Regular m.2 := by
  cases h with
  | number h => cases h
  | object hkeys h => exact ⟨hkeys, h⟩

/-- The member of a regular document is regular. -/
theorem get? {doc value : Json} {key : Text} (h : Regular doc) (hget : doc.get? key = some value) :
    Regular value := by
  cases doc with
  | object members => exact h.members.2 _ (mem_of_member? hget)
  | _ => cases hget

end Regular

/-! ## Readers -/

/-- Whatever a reader gives has a property. -/
def Yields (P : Json → Prop) (r : Except ReadError (Json × Cursor)) : Prop :=
  ∀ doc c, r = .ok (doc, c) → P doc

variable {P Q : Json → Prop}

@[simp] theorem yields_error (e : ReadError) : Yields P (.error e) := by
  intro doc c h
  cases h

@[simp] theorem yields_fail (c : Cursor) (f : Fault) : Yields P (c.fail f) := yields_error _

@[simp] theorem yields_failAhead (c : Cursor) (f : Fault) : Yields P (c.failAhead f) :=
  yields_error _

@[simp] theorem yields_ok {doc : Json} {c : Cursor} : Yields P (.ok (doc, c)) ↔ P doc := by
  constructor
  · exact fun h => h doc c rfl
  · rintro h _ _ ⟨⟩
    exact h

theorem Yields.mono {r : Except ReadError (Json × Cursor)} (h : Yields P r)
    (hPQ : ∀ doc, P doc → Q doc) : Yields Q r :=
  fun doc c hr => hPQ doc (h doc c hr)

/-! ## Numbers -/

theorem readWord_yields {value : Json} (hvalue : P value) (bytes : List UInt8) (c : Cursor) :
    Yields P (readWord value bytes c) := by
  induction bytes generalizing c with
  | nil => exact yields_ok.2 hvalue
  | cons expected more ih =>
    rw [readWord]
    split
    · simp
    · split
      · exact ih _
      · simp

theorem realOf_number (negative : Bool) (significand : Nat) (exponent : Int) (c : Cursor) :
    Yields IsNumber (realOf negative significand exponent c) := by
  rw [realOf]
  split
  · exact yields_ok.2 (.real _)
  · simp

theorem readExponentDigits_number (negative down : Bool) (significand : Nat) (base : Int)
    (bytes : List UInt8) (exponent : Nat) (c : Cursor) :
    Yields IsNumber (readExponentDigits negative down significand base bytes exponent c) := by
  induction bytes generalizing exponent c with
  | nil => exact realOf_number _ _ _ _
  | cons b more ih =>
    rw [readExponentDigits]
    split
    · dsimp only
      split
      · split
        · simp
        · exact yields_ok.2 (.real _)
      · exact ih _ _
    · exact realOf_number _ _ _ _

theorem readExponent_number (negative : Bool) (significand : Nat) (base : Int) (c : Cursor) :
    Yields IsNumber (readExponent negative significand base c) := by
  rw [readExponent]
  dsimp only
  split
  · simp
  · split
    · exact readExponentDigits_number _ _ _ _ _ _ _
    · simp

theorem finishNumber_number (negative : Bool) (significand : Nat) (exponent : Int) (c : Cursor) :
    Yields IsNumber (finishNumber negative significand exponent c) := by
  rw [finishNumber]
  split
  · exact readExponent_number _ _ _ _
  · exact readExponent_number _ _ _ _
  · exact realOf_number _ _ _ _

theorem readFraction_number (negative : Bool) (base : Int) (bytes : List UInt8)
    (significand count : Nat) (c : Cursor) :
    Yields IsNumber (readFraction negative base bytes significand count c) := by
  induction bytes generalizing significand count c with
  | nil =>
    rw [readFraction]
    split
    · simp
    · exact finishNumber_number _ _ _ _
  | cons b more ih =>
    rw [readFraction]
    split
    · dsimp only
      split
      · exact finishNumber_number _ _ _ _
      · exact ih _ _ _
    · split
      · simp
      · exact finishNumber_number _ _ _ _

theorem finishInteger_number (negative : Bool) {significand : Nat}
    (h : significand ≤ maxSignificand) (c : Cursor) :
    Yields IsNumber (finishInteger negative significand c) := by
  rw [finishInteger]
  split
  · exact readFraction_number _ _ _ _ _ _
  · exact readExponent_number _ _ _ _
  · exact readExponent_number _ _ _ _
  · split
    · refine yields_ok.2 (.integer ?_ (by omega))
      have : (0 : Int) ≤ Nat.pow 2 63 := Int.natCast_nonneg _
      omega
    · split
      · exact realOf_number _ _ _ _
      next hsmall =>
        simp only [Bool.or_eq_true, beq_iff_eq, decide_eq_true_eq, not_or, Nat.not_lt] at hsmall
        exact yields_ok.2 (.integer (by omega) (by omega))

theorem finishLongInteger_number (negative : Bool) (significand : Nat) (c : Cursor) :
    Yields IsNumber (finishLongInteger negative significand c) := by
  rw [finishLongInteger]
  split
  · exact readFraction_number _ _ _ _ _ _
  · exact finishNumber_number _ _ _ _

theorem readInteger_number (negative : Bool) (bytes : List UInt8) {significand : Nat}
    (h : significand ≤ maxSignificand) (c : Cursor) :
    Yields IsNumber (readInteger negative bytes significand c) := by
  induction bytes generalizing significand c with
  | nil => exact finishInteger_number negative h c
  | cons b more ih =>
    rw [readInteger]
    split
    · dsimp only
      split
      · exact finishLongInteger_number _ _ _
      next hsmall => exact ih (Nat.le_of_not_lt hsmall) _
    · exact finishInteger_number negative h c

/-- **A number that is read** fits 64 bits or is a real. -/
theorem readNumber_number (negative : Bool) (c : Cursor) :
    Yields IsNumber (readNumber negative c) := by
  have hzero : 0 ≤ maxSignificand := Nat.zero_le _
  rw [readNumber]
  split
  · simp
  · dsimp only
    split
    · split
      · split
        · simp
        · exact finishInteger_number negative hzero _
      · exact finishInteger_number negative hzero _
    · split
      next b _ _ _ =>
        refine readInteger_number negative _ ?_ _
        have hbyte : b.toNat < 256 := b.toNat_lt
        have hmax : 256 ≤ maxSignificand := by decide
        rw [digitValue]
        omega
      · simp

/-! ## Documents -/

/-- What was read of a container before a goal is regular. -/
def Goal.Regular : Goal → Prop
  | .value _ => True
  | .items _ done => ∀ item ∈ done, item.Regular
  | .members _ done => (keys done).Nodup ∧ ∀ m ∈ done, m.2.Regular

section Goals

variable {fuel room : Nat}
  (ih : ∀ {goal : Goal}, goal.Regular → ∀ c, Yields Regular (readGoal fuel goal c))
include ih

/-- One more item is regular, as are those before it. -/
theorem nextItem_regular {done : List Json} (h : (Goal.items room done).Regular) (c : Cursor) :
    Yields Regular (match readGoal fuel (.value room) c with
      | .error e => .error e
      | .ok (item, c) => readGoal fuel (.items room (item :: done)) c) := by
  split
  · simp
  next item c' hitem =>
    have hitem' : item.Regular := @ih (.value room) trivial c _ _ hitem
    exact @ih (.items room (item :: done)) (List.forall_mem_cons.2 ⟨hitem', h⟩) _

/-- One more member keeps the keys distinct, since a key that is there takes the new value. -/
theorem nextMember_regular {done : List (Text × Json)} (h : (Goal.members room done).Regular)
    (c : Cursor) :
    Yields Regular (match readString c.advance with
      | .error e => .error e
      | .ok (key, c) =>
        let c := c.skipBlanks
        match c.peek with
        | none => c.failAhead .eofInObject
        | some 58 =>
          match readGoal fuel (.value room) c.advance with
          | .error e => .error e
          | .ok (value, c) => readGoal fuel (.members room (put key value done)) c
        | some _ => c.failAhead .expectedColon) := by
  split
  · simp
  next key c' hkey =>
    dsimp only
    split
    · simp
    · split
      · simp
      next value c'' hvalue =>
        have hvalue' : value.Regular := @ih (.value room) trivial _ _ _ hvalue
        refine @ih (.members room (put key value done)) ⟨nodup_keys_put h.1, ?_⟩ _
        intro m hm
        rcases mem_put hm with rfl | hm
        · exact hvalue'
        · exact h.2 m hm
    · simp

end Goals

/-- **A goal gives a regular document** if what was read before it is regular. Each step reads a smaller part
or adds a regular one. -/
theorem readGoal_regular (fuel : Nat) {goal : Goal} (h : goal.Regular) (c : Cursor) :
    Yields Regular (readGoal fuel goal c) := by
  induction fuel generalizing goal c with
  | zero =>
    rw [readGoal]
    simp
  | succ fuel ih =>
    cases goal with
    | value room =>
      rw [readGoal.eq_def]
      dsimp only
      split
      · simp
      · exact readWord_yields .null _ _
      · exact readWord_yields (.bool _) _ _
      · exact readWord_yields (.bool _) _ _
      · exact (readNumber_number _ _).mono fun _ => .number
      · split
        · simp
        · exact yields_ok.2 (.string _)
      · cases room with
        | zero => simp
        | succ room => exact ih (by simp [Goal.Regular]) _
      · cases room with
        | zero => simp
        | succ room => exact ih (by simp [Goal.Regular, keys]) _
      · split
        · exact (readNumber_number _ _).mono fun _ => .number
        · simp
    | items room done =>
      rw [readGoal]
      dsimp only
      split
      · simp
      · exact yields_ok.2 (.array fun item hitem => h item (List.mem_reverse.1 hitem))
      · split
        · exact nextItem_regular ih h _
        · split
          · split
            · simp
            · simp
            · exact nextItem_regular ih h _
          · simp
    | members room done =>
      rw [readGoal]
      dsimp only
      split
      · simp
      · exact yields_ok.2 (.object h.1 h.2)
      · split
        · split
          · exact nextMember_regular ih h _
          · simp
        · split
          · split
            · simp
            · exact nextMember_regular ih h _
            · simp
            · simp
          · simp

/-- **Reading gives regular documents.** -/
theorem regular_of_read {s : Text} {doc : Json} (h : read s = .ok doc) : doc.Regular := by
  rw [read, readWithin] at h
  dsimp only at h
  split at h
  · cases h
  next doc' c hgoal =>
    split at h
    · cases h
      exact @readGoal_regular _ (.value 127) trivial _ _ _ hgoal
    · cases h

end RuleAudit.Json
