import RuleAudit.Proofs.Ordered.Lookup
import RuleAudit.Proofs.Ordered.Membership
import RuleAudit.Proofs.Path.Texts
import RuleAudit.Scoring.Reported

/-!
# Collected findings

What is collected from a list of findings: a line is there for a rule in a file if and only if some
finding of the list says so. The order and the repetition of findings leave no trace.
-/

namespace RuleAudit

/-- Some finding is for the rule at line `n` of the file; `place` gives the file that a path
names. -/
def Reports (place : Path → Path) (findings : List Finding) (file : Path) (rule : Text) (n : Nat) :
    Prop :=
  ∃ x ∈ findings, (place x.path).same file = true ∧ x.rule = rule ∧ x.line = n

theorem reports_congr {place : Path → Path} {findings : List Finding} {file file' : Path}
    (h : file.same file' = true) (rule : Text) (n : Nat) :
    Reports place findings file rule n ↔ Reports place findings file' rule n := by
  simp only [Reports, Path.same_congr_right h]

/-- With one more finding, its own line is reported besides those before. -/
theorem reports_one_more {place : Path → Path} {findings findings' : List Finding} {x : Finding}
    (hmem : ∀ y, y ∈ findings' ↔ y = x ∨ y ∈ findings) (file : Path)
    (rule : Text) (n : Nat) : Reports place findings' file rule n ↔
      Reports place findings file rule n ∨
        (place x.path).same file = true ∧ x.rule = rule ∧ x.line = n := by
  simp only [Reports, hmem, or_and_right, exists_or, exists_eq_left, or_comm]

theorem exists_reports_one_more {place : Path → Path} {findings findings' : List Finding}
    {x : Finding} (hmem : ∀ y, y ∈ findings' ↔ y = x ∨ y ∈ findings) (file : Path)
    (rule : Text) : (∃ n, Reports place findings' file rule n) ↔
      (∃ n, Reports place findings file rule n) ∨
        (place x.path).same file = true ∧ x.rule = rule := by
  simp only [reports_one_more hmem, exists_or, exists_and_left, exists_eq', and_true]

namespace Reported

theorem rulesOf_congr {file file' : Path} (h : file.same file' = true) (r : Reported) :
    r.rulesOf file = r.rulesOf file' := by
  rw [rulesOf, rulesOf, OrderedMap.get?_congr (Path.compare_eq_iff.2 h)]

theorem linesOf_congr {file file' : Path} (h : file.same file' = true) (r : Reported)
    (rule : Text) : r.linesOf file rule = r.linesOf file' rule := by
  rw [linesOf, linesOf, rulesOf_congr h]

theorem idsOf_congr {file file' : Path} (h : file.same file' = true) (r : Reported) :
    r.idsOf file = r.idsOf file' := by
  rw [idsOf, idsOf, rulesOf_congr h]

theorem mem_linesOf {r : Reported} {file : Path} {rule : Text} {n : Nat} :
    n ∈ r.linesOf file rule ↔ ∃ lines, (r.rulesOf file).get? rule = some lines ∧ n ∈ lines.elems := by
  rw [linesOf]
  cases (r.rulesOf file).get? rule <;> simp

theorem mem_idsOf {r : Reported} {file : Path} {rule : Text} :
    rule ∈ (r.idsOf file).elems ↔ ((r.rulesOf file).get? rule).isSome = true := by
  rw [idsOf, OrderedSet.mem_ofList, OrderedMap.mem_keys_iff]

/-- The lines of a rule in a file ascend strictly. -/
theorem linesOf_ascending (r : Reported) (file : Path) (rule : Text) :
    (r.linesOf file rule).Pairwise (· < ·) := by
  rw [linesOf]
  cases (r.rulesOf file).get? rule with
  | none => exact .nil
  | some lines => exact lines.sorted.imp Nat.compare_eq_lt.1

/-! ## One finding more -/

theorem get?_add (place : Path → Path) (r : Reported) (x : Finding) (file : Path) :
    (r.add place x).get? file =
      if file.same (place x.path) then some (addLine (r.rulesOf (place x.path)) x.rule x.line)
      else r.get? file := by
  simp only [add, OrderedMap.get?_alter, Path.compare_eq_iff, rulesOf]

theorem rulesOf_add (place : Path → Path) (r : Reported) (x : Finding) (file : Path) :
    (r.add place x).rulesOf file =
      if file.same (place x.path) then addLine (r.rulesOf file) x.rule x.line
      else r.rulesOf file := by
  by_cases h : file.same (place x.path) = true
  · rw [rulesOf, get?_add, if_pos h, if_pos h, rulesOf_congr h]
    rfl
  · rw [rulesOf, get?_add, if_neg h, if_neg h]
    rfl

theorem get?_addLine (rules : OrderedMap Text (OrderedSet Nat)) (rule rule' : Text) (line : Nat) :
    (addLine rules rule line).get? rule' =
      if rule' = rule then some (((rules.get? rule).getD .empty).insert line)
      else rules.get? rule' := by
  simp only [addLine, OrderedMap.get?_alter, Std.LawfulEqOrd.compare_eq_iff_eq]

variable {place : Path → Path} {file : Path} {rule : Text} {n : Nat}

theorem mem_linesOf_add {r : Reported} {x : Finding} : n ∈ (r.add place x).linesOf file rule ↔
    n ∈ r.linesOf file rule ∨ (place x.path).same file = true ∧ x.rule = rule ∧ x.line = n := by
  rw [mem_linesOf, mem_linesOf, rulesOf_add, Path.same_comm file]
  by_cases hfile : (place x.path).same file = true
  · rw [if_pos hfile, get?_addLine]
    by_cases hrule : rule = x.rule
    · subst hrule
      cases (r.rulesOf file).get? x.rule <;> simp [hfile, OrderedSet.empty, eq_comm, or_comm]
    · simp [hrule, Ne.symm hrule]
  · simp [hfile]

theorem mem_idsOf_add {r : Reported} {x : Finding} : rule ∈ ((r.add place x).idsOf file).elems ↔
    rule ∈ (r.idsOf file).elems ∨ (place x.path).same file = true ∧ x.rule = rule := by
  rw [mem_idsOf, mem_idsOf, rulesOf_add, Path.same_comm file]
  by_cases hfile : (place x.path).same file = true
  · rw [if_pos hfile, get?_addLine]
    by_cases hrule : rule = x.rule
    · simp [hrule, hfile]
    · simp [hrule, Ne.symm hrule]
  · simp [hfile]

/-! ## All findings -/

variable {findings : List Finding}

/-- **The collected lines** are those that some finding names. -/
theorem mem_linesOf_ofFindings :
    n ∈ (ofFindings place findings).linesOf file rule ↔ Reports place findings file rule n := by
  suffices hfold : ∀ r : Reported, n ∈ (findings.foldl (add place) r).linesOf file rule ↔
      n ∈ r.linesOf file rule ∨ Reports place findings file rule n by
    have hempty : n ∉ linesOf .empty file rule := by simp [mem_linesOf, rulesOf]
    simpa [ofFindings, hempty] using hfold .empty
  induction findings with
  | nil => simp [Reports]
  | cons x rest ih =>
    intro r
    rw [List.foldl_cons, ih, mem_linesOf_add]
    simp only [Reports, List.exists_mem_cons_iff, or_assoc]

/-- **The collected ids** are those of which some line is reported. -/
theorem mem_idsOf_ofFindings : rule ∈ ((ofFindings place findings).idsOf file).elems ↔
    ∃ n, Reports place findings file rule n := by
  suffices hfold : ∀ r : Reported, rule ∈ ((findings.foldl (add place) r).idsOf file).elems ↔
      rule ∈ (r.idsOf file).elems ∨ ∃ n, Reports place findings file rule n by
    have hempty : rule ∉ (idsOf .empty file).elems := by simp [mem_idsOf, rulesOf]
    simpa [ofFindings, hempty] using hfold .empty
  induction findings with
  | nil => simp [Reports]
  | cons x rest ih =>
    intro r
    rw [List.foldl_cons, ih, mem_idsOf_add]
    simp only [Reports, List.exists_mem_cons_iff, exists_or, exists_and_left, exists_eq',
      and_true, or_assoc]

/-- A file is collected as soon as some finding is about it. -/
theorem isSome_get?_ofFindings : ((ofFindings place findings).get? file).isSome = true ↔
    ∃ x ∈ findings, (place x.path).same file = true := by
  suffices hfold : ∀ r : Reported, ((findings.foldl (add place) r).get? file).isSome = true ↔
      (r.get? file).isSome = true ∨ ∃ x ∈ findings, (place x.path).same file = true by
    simpa [ofFindings] using hfold .empty
  induction findings with
  | nil => simp
  | cons x rest ih =>
    intro r
    rw [List.foldl_cons, ih, get?_add, Path.same_comm file]
    by_cases hfile : (place x.path).same file = true <;> simp [hfile]

theorem isEmpty_ofFindings : (ofFindings place findings).isEmpty = true ↔ findings = [] := by
  rw [OrderedMap.isEmpty_iff, List.eq_nil_iff_forall_not_mem]
  constructor
  · intro h x hx
    have hsome := isSome_get?_ofFindings.2 ⟨x, hx, Path.same_self (place x.path)⟩
    rw [h] at hsome
    cases hsome
  · intro h file
    have hnone : ¬ ((ofFindings place findings).get? file).isSome = true := by
      rw [isSome_get?_ofFindings]
      rintro ⟨x, hx, -⟩
      exact h x hx
    simpa using hnone

/-! ## Spellings -/

/-- Files are collected under spellings that the findings give them. -/
theorem exists_of_mem_keys {file : Path} (h : file ∈ (ofFindings place findings).keys) :
    ∃ x ∈ findings, place x.path = file := by
  suffices hfold : ∀ r : Reported, file ∈ (findings.foldl (add place) r).keys →
      file ∈ r.keys ∨ ∃ x ∈ findings, place x.path = file from
    (hfold .empty h).resolve_left List.not_mem_nil
  clear h
  induction findings with
  | nil => exact fun r h => .inl h
  | cons x rest ih =>
    intro r h
    rw [List.exists_mem_cons_iff]
    obtain hadd | hrest := ih _ h
    · obtain ⟨e, he, rfl⟩ := List.mem_map.1 hadd
      obtain hnew | ⟨e', he', hkey⟩ := OrderedMap.key_of_mem_place he
      · exact .inr (.inl hnew.symm)
      · exact .inl (hkey ▸ List.mem_map_of_mem he')
    · exact .inr (.inr hrest)

/-- The first finding in a file spells its path, so findings that come later change no spelling. -/
theorem mem_keys_append {file : Path} (h : file ∈ (ofFindings place findings).keys) (more : List Finding) :
    file ∈ (ofFindings place (findings ++ more)).keys := by
  rw [ofFindings, List.foldl_append]
  exact List.foldlRecOn (motive := fun r => file ∈ OrderedMap.keys r) more (add place) h
    fun r hr x _ => OrderedMap.mem_keys_alter hr (place x.path) _

end Reported

/-! ## One more finding -/

/-- Findings in a file that shares its text with another file write the path of the file alike; `place` gives
the file that a path names. -/
def SteadyTexts (place : Path → Path) (findings : List Finding) : Prop :=
  ∀ x ∈ findings, ∀ y ∈ findings, ∀ z ∈ findings, (place x.path).same (place y.path) = true →
    (place z.path).display = (place x.path).display →
      (place z.path).same (place x.path) = true ∨ place x.path = place y.path

/-- A list has one finding more than another: at its end, or anywhere if the texts of files that share one are
steady. -/
def AddedTo (place : Path → Path) (findings : List Finding) (x : Finding) (findings' : List Finding) : Prop :=
  findings' = findings ++ [x] ∨
    (∀ y, y ∈ findings' ↔ y = x ∨ y ∈ findings) ∧ SteadyTexts place findings'

/-- The texts of valid paths are steady, since no two files share one. -/
theorem steadyTexts_of_valid {place : Path → Path} {findings : List Finding}
    (h : ∀ x ∈ findings, Utf8.isValid (place x.path).bytes = true) : SteadyTexts place findings := by
  intro x hx y _ z hz _ htext
  rw [Path.eq_of_display_eq (h z hz) (h x hx) htext]
  exact .inl (Path.same_self _)

theorem AddedTo.mem_iff {place : Path → Path} {findings findings' : List Finding} {x : Finding}
    (h : AddedTo place findings x findings') (y : Finding) : y ∈ findings' ↔ y = x ∨ y ∈ findings := by
  rcases h with rfl | ⟨h, -⟩
  · rw [List.mem_append, List.mem_singleton, or_comm]
  · exact h y

end RuleAudit
