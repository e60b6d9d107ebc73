import Mathlib.Data.List.Forall2
import RuleAudit.Engine.Document
import RuleAudit.Proofs.Json.Regular
import RuleAudit.Proofs.Results

/-!
# Findings in a document

The members of an object are read in the order of the document, those of an array by their position. In a
regular document the order makes no difference: a value is read as a finding exactly if it has the parts of
one, and the results of a document are read exactly if each of them is.
-/

namespace RuleAudit

open Json (keys)

namespace Shape

/-- A value gives the line where a match starts: an object with the line as a member, or an array of nothing
else. -/
inductive StartsAt : Json → Nat → Prop where
  | object {doc : Json} {n : Nat} : doc.get? "line".toList = some (.integer n) → StartsAt doc n
  | array (n : Nat) : StartsAt (.array [.integer n]) n

/-- A value describes a finding: an object with the three parts as members, whatever others there are, or an
array of the three. -/
inductive Describes : Json → Finding → Prop where
  | object {doc start : Json} {rule path : Text} {n : Nat} :
      doc.get? "check_id".toList = some (.string rule) →
      doc.get? "path".toList = some (.string path) →
      doc.get? "start".toList = some start → StartsAt start n → Describes doc ⟨rule, ⟨path⟩, n⟩
  | array (rule path : Text) {start : Json} {n : Nat} : StartsAt start n →
      Describes (.array [.string rule, .string path, start]) ⟨rule, ⟨path⟩, n⟩

/-! ## Single values -/

theorem rule_eq_ok_iff {v : Json} {s : Text} : rule v = .ok s ↔ v = .string s := by
  cases v <;> simp [rule]

theorem path_eq_ok_iff {v : Json} {p : Path} : path v = .ok p ↔ ∃ s, v = .string s ∧ p = ⟨s⟩ := by
  cases v <;> simp [path, eq_comm (a := p)]

theorem line_eq_ok_iff {v : Json} {n : Nat} : line v = .ok n ↔ v = .integer n := by
  cases v with
  | integer i =>
    rw [line]
    by_cases hi : i < 0
    · simp only [if_pos hi, reduceCtorEq, Json.integer.injEq, false_iff]
      omega
    · simp only [if_neg hi, Except.ok.injEq, Json.integer.injEq]
      omega
  | _ => simp [line]

/-! ## Members in the order of the document -/

/-- A member that is read if it is there: the new value, or else the old one. -/
def Reads {α : Type} (read : Json → Except Fault α) (member : Option Json) (old new : Option α) :
    Prop :=
  match member with
  | none => new = old
  | some v => ∃ x, read v = .ok x ∧ new = some x

variable {α : Type} {read : Json → Except Fault α} {old new : Option α}

/-- What is read when nothing was read before comes from a member. -/
theorem reads_none_iff {member : Option Json} {x : α} :
    Reads read member none (some x) ↔ ∃ v, member = some v ∧ read v = .ok x := by
  cases member with
  | none => simp [Reads]
  | some v => simp [Reads]

/-- A key that stands first stands nowhere after. -/
theorem member?_rest {k : Text} {v : Json} {rest : List (Text × Json)}
    (h : (keys ((k, v) :: rest)).Nodup) : Json.member? k rest = none :=
  Json.member?_eq_none_iff.2 (List.nodup_cons.1 h).1

theorem lineAmong_eq_ok_iff {members : List (Text × Json)} (h : (keys members).Nodup)
    {old new : Option Nat} : lineAmong members old = .ok new ↔
      Reads line (Json.member? Field.line.key members) old new := by
  induction members generalizing old with
  | nil =>
    rw [lineAmong, Except.ok.injEq, Json.member?, Reads]
    exact eq_comm
  | cons first rest ih =>
    obtain ⟨k, v⟩ := first
    have hrest : (keys rest).Nodup := (List.nodup_cons.1 h).2
    rw [lineAmong, Json.member?]
    by_cases hk : k = Field.line.key
    · subst hk
      rw [if_pos rfl, if_pos rfl, Reads]
      cases hv : line v with
      | error e => simp
      | ok n => simp [ih hrest, member?_rest h, Reads]
    · rw [if_neg hk, if_neg hk, ih hrest]

/-- **The members of a finding** are read by their keys, wherever they stand. -/
theorem partsAmong_eq_ok_iff {members : List (Text × Json)} (h : (keys members).Nodup)
    {old new : Parts} : partsAmong members old = .ok new ↔
      Reads rule (Json.member? Field.rule.key members) old.rule new.rule ∧
        Reads path (Json.member? Field.path.key members) old.path new.path ∧
        Reads start (Json.member? Field.start.key members) old.line new.line := by
  induction members generalizing old with
  | nil =>
    obtain ⟨r, p, n⟩ := old
    obtain ⟨r', p', n'⟩ := new
    simp only [partsAmong, Except.ok.injEq, Parts.mk.injEq, Json.member?, Reads,
      eq_comm (a := r), eq_comm (a := p), eq_comm (a := n)]
  | cons first rest ih =>
    obtain ⟨k, v⟩ := first
    have hrest : (keys rest).Nodup := (List.nodup_cons.1 h).2
    have hrulePath : Field.rule.key ≠ Field.path.key := by decide
    have hruleStart : Field.rule.key ≠ Field.start.key := by decide
    have hpathStart : Field.path.key ≠ Field.start.key := by decide
    simp only [partsAmong, Json.member?]
    -- Of the three keys at most one is the first, and it does not come again.
    by_cases hrule : k = Field.rule.key
    · subst hrule
      rw [if_pos rfl, if_pos rfl, if_neg hrulePath, if_neg hruleStart, Reads]
      cases hv : rule v with
      | error e => simp
      | ok r => simp [ih hrest, member?_rest h, Reads]
    by_cases hpath : k = Field.path.key
    · subst hpath
      rw [if_neg hrule, if_pos rfl, if_neg hrule, if_pos rfl, if_neg hpathStart]
      cases hv : path v with
      | error e => simp [Reads, hv]
      | ok p => simp [ih hrest, member?_rest h, Reads, hv]
    by_cases hstart : k = Field.start.key
    · subst hstart
      rw [if_neg hrule, if_neg hpath, if_pos rfl, if_neg hrule, if_neg hpath, if_pos rfl]
      cases hv : start v with
      | error e => simp [Reads, hv]
      | ok n => simp [ih hrest, member?_rest h, Reads, hv]
    · rw [if_neg hrule, if_neg hpath, if_neg hstart, if_neg hrule, if_neg hpath, if_neg hstart,
        ih hrest]

/-! ## Whole values -/

theorem start_eq_ok_iff {v : Json} (h : v.Regular) {n : Nat} : start v = .ok n ↔ StartsAt v n := by
  cases v with
  | object members =>
    have hmember : (∃ v, Json.member? Field.line.key members = some v ∧ line v = .ok n) ↔
        StartsAt (.object members) n := by
      constructor
      · rintro ⟨v, hv, hn⟩
        exact .object (line_eq_ok_iff.1 hn ▸ hv)
      · rintro ⟨hv⟩
        exact ⟨_, hv, line_eq_ok_iff.2 rfl⟩
    rw [← hmember, ← reads_none_iff, ← lineAmong_eq_ok_iff h.members.1, start]
    cases lineAmong members none with
    | error e => simp
    | ok found => cases found <;> simp
  | array items =>
    cases items with
    | nil =>
      simp only [start, reduceCtorEq, false_iff]
      rintro ⟨hget⟩
      cases hget
    | cons first rest =>
      rw [start]
      constructor
      · intro hstart
        split at hstart
        next => cases hstart
        next m hfirst =>
          split at hstart
          next hempty =>
            obtain rfl := List.isEmpty_iff.1 hempty
            obtain rfl := Except.ok.inj hstart
            exact line_eq_ok_iff.1 hfirst ▸ .array m
          next => cases hstart
      · intro hstart
        cases hstart with
        | object hget => cases hget
        | array => simp [line_eq_ok_iff.2 rfl]
  | _ =>
    simp only [start, reduceCtorEq, false_iff]
    rintro ⟨hget⟩
    cases hget

theorem findingOfMembers_eq_ok_iff {members : List (Text × Json)}
    (h : (Json.object members).Regular) {f : Finding} :
    findingOfMembers members = .ok f ↔ Describes (.object members) f := by
  have hparts : findingOfMembers members = .ok f ↔
      partsAmong members ⟨none, none, none⟩ = .ok ⟨some f.rule, some f.path, some f.line⟩ := by
    obtain ⟨r, p, n⟩ := f
    rw [findingOfMembers, bind_eq_ok_iff]
    constructor
    · rintro ⟨⟨r', p', n'⟩, hparts, hf⟩
      cases r' <;> cases p' <;> cases n' <;>
        simp_all [throw_ne_ok, pure_eq_ok_iff]
    · intro hparts
      exact ⟨_, hparts, rfl⟩
  rw [hparts, partsAmong_eq_ok_iff h.members.1, reads_none_iff, reads_none_iff, reads_none_iff]
  constructor
  · rintro ⟨⟨_, hrule, hruleText⟩, ⟨_, hpath, hpathText⟩, ⟨start', hstart, hline⟩⟩
    rw [rule_eq_ok_iff] at hruleText
    obtain ⟨s, rfl, hs⟩ := path_eq_ok_iff.1 hpathText
    have hregular : start'.Regular := h.get? hstart
    obtain ⟨r, p, n⟩ := f
    obtain rfl : p = ⟨s⟩ := hs
    exact .object (hruleText ▸ hrule) hpath hstart ((start_eq_ok_iff hregular).1 hline)
  · intro hf
    cases hf with
    | object hrule hpath hstart hline =>
      exact ⟨⟨_, hrule, rule_eq_ok_iff.2 rfl⟩, ⟨_, hpath, path_eq_ok_iff.2 ⟨_, rfl, rfl⟩⟩,
        ⟨_, hstart, (start_eq_ok_iff (h.get? hstart)).2 hline⟩⟩

theorem findingOfItems_eq_ok_iff {items : List Json} (h : (Json.array items).Regular)
    {f : Finding} : findingOfItems items = .ok f ↔ Describes (.array items) f := by
  have hitems : findingOfItems items = .ok f ↔ ∃ s third, items =
      [.string f.rule, .string s, third] ∧ f.path = ⟨s⟩ ∧ start third = .ok f.line := by
    obtain ⟨r, p, n⟩ := f
    rw [findingOfItems]
    rcases items with _ | ⟨first, _ | ⟨second, _ | ⟨third, _ | ⟨fourth, rest⟩⟩⟩⟩
    · simp [throw_ne_ok]
    · simp [bind_eq_ok_iff, throw_ne_ok]
    · simp [bind_eq_ok_iff, throw_ne_ok]
    · simp only [List.getElem?_cons_zero, List.getElem?_cons_succ, List.length_cons,
        List.length_nil, Nat.lt_irrefl, if_false, bind_eq_ok_iff, pure_eq_ok_iff, rule_eq_ok_iff,
        path_eq_ok_iff]
      constructor
      · rintro ⟨_, rfl, _, ⟨s, rfl, rfl⟩, _, hstart, ⟨⟩⟩
        exact ⟨s, third, rfl, rfl, hstart⟩
      · rintro ⟨s, _, ⟨⟩, rfl, hstart⟩
        exact ⟨r, rfl, ⟨s⟩, ⟨s, rfl, rfl⟩, n, hstart, rfl⟩
    · simp [bind_eq_ok_iff, map_eq_ok_iff, throw_ne_ok]
  rw [hitems]
  constructor
  · rintro ⟨s, third, rfl, hpath, hline⟩
    obtain ⟨r, p, n⟩ := f
    obtain rfl : p = ⟨s⟩ := hpath
    exact .array r s ((start_eq_ok_iff (h.items third (by simp))).1 hline)
  · intro hf
    cases hf with
    | object hrule => cases hrule
    | array rule path hline =>
      exact ⟨_, _, rfl, rfl, (start_eq_ok_iff (h.items _ (by simp))).2 hline⟩

/-- **A value is read as the finding that it describes**, and if it describes none it is not read. -/
theorem finding_eq_ok_iff {v : Json} (h : v.Regular) {f : Finding} :
    finding v = .ok f ↔ Describes v f := by
  cases v with
  | object members => exact findingOfMembers_eq_ok_iff h
  | array items => exact findingOfItems_eq_ok_iff h
  | _ =>
    simp only [finding, reduceCtorEq, false_iff]
    rintro ⟨hget⟩
    cases hget

end Shape

/-- A document reports some findings: its results are an array of what describes them, one for one and in
their order, or there are neither results nor findings. -/
inductive Json.Reports (raw : Json) : List Finding → Prop where
  | none : raw.get? "results".toList = none → raw.Reports []
  | array {items : List Json} {findings : List Finding} :
      raw.get? "results".toList = some (.array items) →
      List.Forall₂ Shape.Describes items findings → raw.Reports findings

theorem mapM_finding_eq_ok_iff {items : List Json} (h : ∀ item ∈ items, item.Regular)
    {findings : List Finding} : items.mapM Shape.finding = .ok findings ↔
      List.Forall₂ Shape.Describes items findings := by
  induction items generalizing findings with
  | nil =>
    rw [List.mapM_nil, pure_eq_ok_iff, List.forall₂_nil_left_iff]
    exact eq_comm
  | cons item items ih =>
    obtain ⟨hitem, hitems⟩ := List.forall_mem_cons.1 h
    simp only [List.mapM_cons, bind_eq_ok_iff, pure_eq_ok_iff, ih hitems,
      Shape.finding_eq_ok_iff hitem, List.forall₂_cons_left_iff]
    constructor
    · rintro ⟨f, hf, fs, hfs, rfl⟩
      exact ⟨f, fs, hf, hfs, rfl⟩
    · rintro ⟨f, fs, hf, hfs, rfl⟩
      exact ⟨f, hf, fs, hfs, rfl⟩

/-- **The findings that are read** from a document are those that it reports. -/
theorem Scan.ofDocument_eq_ok_iff {raw : Json} (h : raw.Regular) {scan : Scan} :
    ofDocument raw = .ok scan ↔ scan.raw = raw ∧ raw.Reports scan.findings := by
  obtain ⟨findings, doc⟩ := scan
  rw [ofDocument]
  constructor
  · intro hread
    split at hread
    next hnone =>
      cases hread
      exact ⟨rfl, .none hnone⟩
    next items hitems =>
      cases hmapped : items.mapM Shape.finding with
      | error e => simp [hmapped, Except.map] at hread
      | ok found =>
        simp only [hmapped, Except.map, Except.ok.injEq, Scan.mk.injEq] at hread
        obtain ⟨rfl, rfl⟩ := hread
        exact ⟨rfl, .array hitems ((mapM_finding_eq_ok_iff (h.get? hitems).items).1 hmapped)⟩
    next => cases hread
  · rintro ⟨hraw, hreports⟩
    dsimp only at hraw hreports
    subst hraw
    cases hreports with
    | none hnone => rw [hnone]
    | array hitems hdescribed =>
      rw [hitems]
      simp only [(mapM_finding_eq_ok_iff (h.get? hitems).items).2 hdescribed, Except.map]

end RuleAudit
