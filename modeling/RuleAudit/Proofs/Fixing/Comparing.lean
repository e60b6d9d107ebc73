import Mathlib.Data.List.Forall2
import RuleAudit.Proofs.Fixing.Copies
import RuleAudit.Proofs.Results

/-!
# Copies compared one after the other

A copy is dropped as soon as it has been compared. Dropping it changes nothing but its own place, so every
copy is at its turn as the engine left it, and everything that stood before the copies were made still
stands.
-/

namespace RuleAudit.World

/-! ## Dropping -/

/-- Dropping a copy changes nothing but the place that its path leads to. -/
theorem dropCopy_spec {first w : World} (h : first.Keeps w) {cc : CopiedCase} {place : Place}
    (hplace : first.resolve false cc.copy = .ok (.free place)) :
    first.Keeps (w.dropCopy cc) ∧
      ∀ q, q ≠ place → (w.dropCopy cc).tree.node? q = w.tree.node? q := by
  have hresolve := h.resolve_free hplace
  have hdropped : w.dropCopy cc = w ∨ w.dropCopy cc = { w with tree := w.tree.erase place } := by
    rw [dropCopy, remove, hresolve, Tree.spotAt]
    cases hnode : w.tree.node? place with
    | none => exact .inl rfl
    | some node => cases node <;> simp [Except.toOption]
  have hunchanged : ∀ q, q ≠ place → (w.dropCopy cc).tree.node? q = w.tree.node? q := by
    intro q hq
    rcases hdropped with hsame | herased
    · rw [hsame]
    · rw [herased]
      exact Tree.node?_erase_of_ne hq
  have hhome : (w.dropCopy cc).home = w.home := by
    rcases hdropped with hsame | herased
    · rw [hsame]
    · rw [herased]
  refine ⟨⟨?_, hhome.trans h.home⟩, hunchanged⟩
  intro q node hq
  rw [hunchanged q]
  · exact h.tree q node hq
  · rintro rfl
    cases (node?_of_free hplace).symm.trans hq

/-- **Dropping copies** leaves everything that stood before they were made, and changes nothing but the
places that their paths lead to. -/
theorem dropCopies_spec {first w : World} (h : first.Keeps w) {copies : List CopiedCase}
    (hcopies : ∀ cc ∈ copies, ∃ place, first.resolve false cc.copy = .ok (.free place)) :
    first.Keeps (w.dropCopies copies) ∧
      ∀ q, (∀ cc ∈ copies, first.resolve false cc.copy ≠ .ok (.free q)) →
        (w.dropCopies copies).tree.node? q = w.tree.node? q := by
  induction copies generalizing w with
  | nil => exact ⟨h, fun _ _ => rfl⟩
  | cons cc rest ih =>
    obtain ⟨⟨place, hplace⟩, hrest⟩ := List.forall_mem_cons.1 hcopies
    obtain ⟨hkeeps, hone⟩ := dropCopy_spec h hplace
    obtain ⟨hkept, hmore⟩ := ih hkeeps hrest
    refine ⟨hkept, ?_⟩
    intro q hq
    obtain ⟨hcc, hothers⟩ := List.forall_mem_cons.1 hq
    refine (hmore q hothers).trans (hone q ?_)
    rintro rfl
    exact hcc hplace

/-! ## Comparing -/

/-- With a golden file that can be read, a file can be compared as far as it can be read. -/
theorem exists_compareFixed_iff {w : World} {golden : Path} {wanted : Text}
    (h : w.readText golden = .ok wanted) (fixed : Path) :
    (∃ diff, w.compareFixed fixed golden = .ok diff) ↔ ∃ text, w.readText fixed = .ok text := by
  rw [compareFixed, h]
  cases w.readText fixed <;> simp [bind, Except.bind, pure, Except.pure]

theorem compareFixed_eq_error_iff {w : World} {golden : Path} {wanted : Text}
    (h : w.readText golden = .ok wanted) (fixed : Path) (e : RunError) :
    w.compareFixed fixed golden = .error e ↔ w.readText fixed = .error e := by
  rw [compareFixed, h]
  cases w.readText fixed <;> simp [bind, Except.bind, pure, Except.pure]

theorem file_of_readText {w : World} {p : Path} {e : RunError} (h : w.readText p = .error e) :
    ∃ cause, e = .file p cause := by
  rw [readText] at h
  split at h
  next => cases h
  next => exact ⟨_, (Except.error.inj h).symm⟩

/-- What keeps a file from being compared is a file that cannot be read. -/
theorem file_of_compareFixed {w : World} {fixed golden : Path} {e : RunError}
    (h : w.compareFixed fixed golden = .error e) : ∃ p cause, e = .file p cause := by
  cases hwanted : w.readText golden with
  | error e' =>
    simp only [compareFixed, hwanted, bind, Except.bind, Except.error.injEq] at h
    exact ⟨golden, h ▸ file_of_readText hwanted⟩
  | ok wanted =>
    exact ⟨fixed, file_of_readText ((compareFixed_eq_error_iff hwanted fixed e).1 h)⟩

/-- Each copy with the files at its turn: those before it have been dropped. -/
def turns (w : World) : List CopiedCase → List (World × CopiedCase)
  | [] => []
  | cc :: rest => (w, cc) :: turns (w.dropCopy cc) rest

theorem map_snd_turns (w : World) (copies : List CopiedCase) :
    (w.turns copies).map Prod.snd = copies := by
  induction copies generalizing w with
  | nil => rfl
  | cons cc rest ih => rw [turns, List.map_cons, ih]

/-- At its turn a copy finds the copies before it dropped. -/
theorem exists_of_mem_turns {w w' : World} {copies : List CopiedCase} {cc : CopiedCase}
    (h : (w', cc) ∈ w.turns copies) :
    ∃ earlier later, copies = earlier ++ cc :: later ∧ w' = w.dropCopies earlier := by
  induction copies generalizing w with
  | nil => cases h
  | cons first rest ih =>
    rcases List.mem_cons.1 h with hfirst | hrest
    · obtain ⟨rfl, rfl⟩ := Prod.mk.inj hfirst
      exact ⟨[], rest, rfl, rfl⟩
    · obtain ⟨earlier, later, rfl, rfl⟩ := ih hrest
      exact ⟨first :: earlier, later, rfl, rfl⟩

/-- The verdict on a copy at its turn. -/
structure Compared (turn : World × CopiedCase) (v : GoldenVerdict) : Prop where
  case : v.case = turn.2.case
  diff : turn.1.compareFixed turn.2.copy turn.2.case.golden = .ok v.diff

/-- **Comparing copies gives verdicts** exactly if each copy can be compared at its turn. -/
theorem compareCopies_eq_ok_iff {w : World} {copies : List CopiedCase} {verdicts : List GoldenVerdict} :
    w.compareCopies copies = .ok verdicts ↔ List.Forall₂ Compared (w.turns copies) verdicts := by
  induction copies generalizing w verdicts with
  | nil =>
    rw [compareCopies, turns, List.forall₂_nil_left_iff, Except.ok.injEq]
    exact eq_comm
  | cons cc rest ih =>
    rw [compareCopies, turns, List.forall₂_cons_left_iff]
    cases hdiff : w.compareFixed cc.copy cc.case.golden with
    | error e =>
      simp only [reduceCtorEq, false_iff]
      intro hsome
      obtain ⟨v, more, hv, -, -⟩ := hsome
      cases hdiff.symm.trans hv.diff
    | ok diff =>
      cases hrest : (w.dropCopy cc).compareCopies rest with
      | error e =>
        constructor
        · intro hok
          cases hok
        · intro hsome
          obtain ⟨v, more, -, hmore, -⟩ := hsome
          cases hrest.symm.trans (ih.2 hmore)
      | ok others =>
        constructor
        · intro hok
          obtain rfl := Except.ok.inj hok
          exact ⟨_, _, ⟨rfl, hdiff⟩, ih.1 hrest, rfl⟩
        · intro hsome
          obtain ⟨⟨case, diff'⟩, more, ⟨rfl, hv⟩, hmore, rfl⟩ := hsome
          obtain rfl := Except.ok.inj (hdiff.symm.trans hv)
          obtain rfl := Except.ok.inj (hrest.symm.trans (ih.2 hmore))
          rfl

/-- Each copy that is compared has a verdict, in order. -/
theorem compareCopies_cases {w : World} {copies : List CopiedCase} {verdicts : List GoldenVerdict}
    (h : w.compareCopies copies = .ok verdicts) :
    verdicts.map GoldenVerdict.case = copies.map CopiedCase.case := by
  have hturns : verdicts.map GoldenVerdict.case = (w.turns copies).map fun turn => turn.2.case := by
    rw [← List.forall₂_eq_eq_eq, List.forall₂_map_left_iff, List.forall₂_map_right_iff]
    exact (compareCopies_eq_ok_iff.1 h).flip.imp fun _ _ hv => hv.case
  have hcopies := congrArg (List.map CopiedCase.case) (map_snd_turns w copies)
  rw [List.map_map] at hcopies
  exact hturns.trans hcopies

/-- **Comparing copies succeeds** exactly if each copy can be compared at its turn. -/
theorem exists_compareCopies_iff {w : World} {copies : List CopiedCase} :
    (∃ verdicts, w.compareCopies copies = .ok verdicts) ↔
      ∀ turn ∈ w.turns copies, ∃ diff,
        turn.1.compareFixed turn.2.copy turn.2.case.golden = .ok diff := by
  induction copies generalizing w with
  | nil => simp [compareCopies, turns]
  | cons cc rest ih =>
    rw [turns, List.forall_mem_cons, ← ih, compareCopies]
    cases w.compareFixed cc.copy cc.case.golden with
    | error e => simp
    | ok diff => cases (w.dropCopy cc).compareCopies rest <;> simp [Except.map]

/-- **Comparing copies ends with an error** only at the turn of the first copy that cannot be compared, and
with the error of this copy. -/
theorem compareCopies_error {w : World} {copies : List CopiedCase} {e : RunError}
    (h : w.compareCopies copies = .error e) : ∃ before turn after,
      w.turns copies = before ++ turn :: after ∧
      (∀ turn ∈ before, ∃ diff, turn.1.compareFixed turn.2.copy turn.2.case.golden = .ok diff) ∧
      turn.1.compareFixed turn.2.copy turn.2.case.golden = .error e := by
  induction copies generalizing w with
  | nil => cases h
  | cons cc rest ih =>
    rw [compareCopies] at h
    cases hdiff : w.compareFixed cc.copy cc.case.golden with
    | error e' =>
      simp only [hdiff, Except.error.injEq] at h
      subst h
      exact ⟨[], (w, cc), _, rfl, by simp, hdiff⟩
    | ok diff =>
      simp only [hdiff] at h
      cases hrest : (w.dropCopy cc).compareCopies rest with
      | ok others =>
        rw [hrest] at h
        cases h
      | error e' =>
        rw [hrest] at h
        obtain rfl := Except.error.inj h
        obtain ⟨before, turn, after, hturns, hbefore, herror⟩ := ih hrest
        refine ⟨(w, cc) :: before, turn, after, by rw [turns, hturns]; rfl, ?_, herror⟩
        exact List.forall_mem_cons.2 ⟨⟨diff, hdiff⟩, hbefore⟩

/-- What keeps copies from being compared is a file that cannot be read. -/
theorem file_of_compareCopies {w : World} {copies : List CopiedCase} {e : RunError}
    (h : w.compareCopies copies = .error e) : ∃ p cause, e = .file p cause := by
  obtain ⟨-, turn, -, -, -, herror⟩ := compareCopies_error h
  exact file_of_compareFixed herror

end RuleAudit.World
