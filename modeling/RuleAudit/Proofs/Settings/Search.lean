import RuleAudit.Proofs.Files.Normal
import RuleAudit.Proofs.Path.Ancestors
import RuleAudit.Settings.Discovery

/-!
# The search for settings

The search goes from parent to parent as long as nothing ends it in the directory that it looks at. It looks
at one directory for each component, so it has steps enough to reach the root. From the path of a place it
looks at the places above.
-/

namespace RuleAudit

/-- Above the path of a place lie the paths of the places above, and nothing else. -/
theorem Place.atOrAbove_path_iff {place : Place} {q : Path} :
    place.path.AtOrAbove q ↔ ∃ above, above <:+ place ∧ q = Place.path above := by
  induction place with
  | nil =>
    have htop : (Place.path []).parent? = none := by decide
    constructor
    · intro hq
      rcases hq.cases_head with rfl | ⟨_, hparent, -⟩
      · exact ⟨[], List.suffix_rfl, rfl⟩
      · rw [htop] at hparent
        cases hparent
    · rintro ⟨above, habove, rfl⟩
      obtain rfl := List.suffix_nil.1 habove
      exact .refl
  | cons name place ih =>
    have hparent := parent?_path name place
    constructor
    · intro hq
      rcases hq.cases_head with rfl | ⟨_, hstep, hq⟩
      · exact ⟨_, List.suffix_rfl, rfl⟩
      · obtain rfl := Option.some.inj (hparent.symm.trans hstep)
        obtain ⟨above, habove, rfl⟩ := ih.1 hq
        exact ⟨above, habove.trans (List.suffix_cons name place), rfl⟩
    · rintro ⟨above, habove, rfl⟩
      rcases List.suffix_cons_iff.1 habove with rfl | habove
      · exact .refl
      · exact .head hparent (ih.2 ⟨above, habove, rfl⟩)

namespace World

variable {w w' : World} {start root dir : Path} {steps : Nat}

/-- The directory holds something of this name. -/
def Holds (w : World) (dir : Path) (name : String) : Prop := w.has (dir.join ⟨name.toList⟩) = true

instance (w : World) (dir : Path) (name : String) : Decidable (w.Holds dir name) :=
  inferInstanceAs (Decidable (_ = _))

/-- The directory holds a settings file or a repository. -/
def Marked (w : World) (dir : Path) : Prop :=
  ∃ name ∈ ["ruletest.toml", "ruletest.yaml", "ruletest.yml", ".git"], w.Holds dir name

theorem isMarked_iff : w.isMarked dir = true ↔ w.Marked dir := by
  have hnames : markNames =
      ["ruletest.toml", "ruletest.yaml", "ruletest.yml", ".git"].map String.toList := rfl
  rw [isMarked, hnames, List.any_map, List.any_eq_true]
  rfl

instance (w : World) (dir : Path) : Decidable (w.Marked dir) := decidable_of_iff _ isMarked_iff

/-! ## The directories that are looked at -/

/-- A step of the search: the first directory does not end it, and the second one is its parent. -/
def GoesOn (w : World) (dir above : Path) : Prop := ¬ w.Marked dir ∧ dir.parent? = some above

/-- The search from the first directory looks at the second one. -/
def LooksAt (w : World) (start dir : Path) : Prop := Relation.ReflTransGen w.GoesOn start dir

theorem LooksAt.atOrAbove (h : w.LooksAt start dir) : start.AtOrAbove dir :=
  Relation.ReflTransGen.mono (fun _ _ hstep => hstep.2) start dir h

/-- What is passed on the way ends the search nowhere, so a marked directory lies farther up. -/
theorem LooksAt.atOrAbove_of_marked (h : w.LooksAt start root) (hdir : start.AtOrAbove dir)
    (hmarked : w.Marked dir) : root.AtOrAbove dir := by
  induction h with
  | refl => exact hdir
  | tail _ hstep ih =>
    rcases ih.cases_head with rfl | ⟨_, hparent, hdir⟩
    · exact absurd hmarked hstep.1
    · obtain rfl := Option.some.inj (hstep.2.symm.trans hparent)
      exact hdir

theorem markedAbove_of_marked (h : w.Marked dir) : w.markedAbove (steps + 1) dir = some dir := by
  rw [markedAbove, if_pos (isMarked_iff.2 h)]

theorem markedAbove_of_not_marked (h : ¬ w.Marked dir) :
    w.markedAbove (steps + 1) dir = dir.parent?.bind (w.markedAbove steps) := by
  rw [markedAbove, if_neg (isMarked_iff.not.2 h)]
  cases dir.parent? <;> rfl

/-- What the search finds it looks at, and it is marked. -/
theorem looksAt_of_markedAbove (h : w.markedAbove steps start = some root) :
    w.LooksAt start root ∧ w.Marked root := by
  induction steps generalizing start with
  | zero => cases h
  | succ steps ih =>
    by_cases hmarked : w.Marked start
    · rw [markedAbove_of_marked hmarked] at h
      obtain rfl := Option.some.inj h
      exact ⟨.refl, hmarked⟩
    · rw [markedAbove_of_not_marked hmarked, Option.bind_eq_some_iff] at h
      obtain ⟨above, hparent, h⟩ := h
      obtain ⟨hlooks, hroot⟩ := ih h
      exact ⟨.head ⟨hmarked, hparent⟩ hlooks, hroot⟩

/-- With a step for each component, nothing is found only where nothing is marked. -/
theorem not_marked_of_markedAbove (hsteps : start.components.length ≤ steps)
    (habs : start.isAbsolute = true) (h : w.markedAbove steps start = none)
    (hdir : start.AtOrAbove dir) : ¬ w.Marked dir := by
  induction steps generalizing start with
  | zero =>
    rw [Path.components_of_isAbsolute habs] at hsteps
    exact absurd hsteps (Nat.not_succ_le_zero _)
  | succ steps ih =>
    have hstart : ¬ w.Marked start := by
      intro hmarked
      rw [markedAbove_of_marked hmarked] at h
      cases h
    rcases hdir.cases_head with rfl | ⟨above, hparent, hdir⟩
    · exact hstart
    · rw [markedAbove_of_not_marked hstart, hparent, Option.bind_some] at h
      have hshorter := Path.length_components_of_parent? hparent
      exact ih (by omega) (Path.isAbsolute_of_parent? hparent habs) h hdir

/-! ## Where the search ends -/

/-- The search ends in the nearest marked directory, or where it starts if there is none. -/
inductive EndsIn (w : World) (start : Path) : Path → Prop where
  | nearest {root : Path} (above : start.AtOrAbove root) (marked : w.Marked root)
      (first : ∀ dir, start.AtOrAbove dir → w.Marked dir → root.AtOrAbove dir) : EndsIn w start root
  | nowhere (unmarked : ∀ dir, start.AtOrAbove dir → ¬ w.Marked dir) : EndsIn w start start

theorem endsIn_findRoot (habs : start.isAbsolute = true) : w.EndsIn start (w.findRoot start) := by
  rw [findRoot]
  cases h : w.markedAbove (start.bytes.length + 1) start with
  | some root =>
    obtain ⟨hlooks, hmarked⟩ := looksAt_of_markedAbove h
    exact .nearest hlooks.atOrAbove hmarked fun _ hdir => hlooks.atOrAbove_of_marked hdir
  | none =>
    exact .nowhere fun _ => not_marked_of_markedAbove (Path.length_components_le habs) habs h

theorem EndsIn.isAbsolute (h : w.EndsIn start root) (habs : start.isAbsolute = true) :
    root.isAbsolute = true := by
  cases h with
  | nearest above => exact above.isAbsolute habs
  | nowhere => exact habs

theorem looksAt_findRoot : w.LooksAt start (w.findRoot start) := by
  rw [findRoot]
  cases h : w.markedAbove (start.bytes.length + 1) start with
  | some root => exact (looksAt_of_markedAbove h).1
  | none => exact .refl

/-! ## What the search depends on -/

/-- The two worlds mark alike what the search looks at. -/
def MarksAlike (w w' : World) (start : Path) : Prop :=
  ∀ dir, w.LooksAt start dir → ∀ name ∈ ["ruletest.toml", "ruletest.yaml", "ruletest.yml", ".git"],
    (w'.Holds dir name ↔ w.Holds dir name)

theorem MarksAlike.marked_iff (h : w.MarksAlike w' start) : w'.Marked start ↔ w.Marked start :=
  exists_congr fun name => and_congr_right fun hname => h start .refl name hname

theorem markedAbove_congr (h : w.MarksAlike w' start) :
    w'.markedAbove steps start = w.markedAbove steps start := by
  induction steps generalizing start with
  | zero => rfl
  | succ steps ih =>
    by_cases hmarked : w.Marked start
    · rw [markedAbove_of_marked hmarked, markedAbove_of_marked (h.marked_iff.2 hmarked)]
    · rw [markedAbove_of_not_marked hmarked, markedAbove_of_not_marked (h.marked_iff.not.2 hmarked)]
      refine Option.bind_congr fun above hparent => ih ?_
      exact fun dir hdir => h dir (.head ⟨hmarked, hparent⟩ hdir)

/-- **What the search does not look at** does not change where it ends. -/
theorem findRoot_congr (h : w.MarksAlike w' start) : w'.findRoot start = w.findRoot start := by
  rw [findRoot, findRoot, markedAbove_congr h]

end World

end RuleAudit
