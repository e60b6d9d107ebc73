import RuleAudit.Fixing.Comparison
import RuleAudit.Proofs.Path.Components
import RuleAudit.Proofs.Text.Pieces

/-!
# Places that paths lead to

The path of a place spells its names without loss, so two paths that are normalized to the same file lead to
the same place, and reading them gives the same text.
-/

namespace RuleAudit

/-! ## Paths of places -/

namespace Place

theorem isAbsolute_path (place : Place) : place.path.isAbsolute = true := by
  rw [path]
  split
  · rfl
  next hne =>
    obtain ⟨first, rest, h⟩ := List.exists_cons_of_ne_nil
      (show place.reverse ≠ [] by simpa using hne)
    rw [h]
    rfl

/-- Before each name of a place stands a slash. -/
theorem bytes_path {place : Place} (hne : place ≠ []) :
    place.path.bytes = List.intercalate [slash] ([] :: place.reverse.map Name.bytes) := by
  rw [Text.intercalate_cons_eq, path, if_neg (by simpa using hne), List.nil_append, List.flatMap_map]

theorem splitOn_path {place : Place} (hne : place ≠ []) :
    Text.splitOn slash place.path.bytes = [] :: place.reverse.map Name.bytes := by
  rw [bytes_path hne, Text.splitOn_intercalate (List.cons_ne_nil _ _)]
  intro piece hpiece
  rcases List.mem_cons.1 hpiece with rfl | hpiece
  · exact List.not_mem_nil
  · obtain ⟨name, -, rfl⟩ := List.mem_map.1 hpiece
    exact name.proper.2.2.2

/-- The components of the path are the names of the place, the root first. -/
theorem components_path (place : Place) :
    place.path.components = .root :: place.reverse.map Name.component := by
  rw [Path.components_of_isAbsolute (isAbsolute_path place)]
  by_cases hempty : place = []
  · subst hempty
    rfl
  have hnames : ∀ names : List Name,
      Path.innerComponents (names.map Name.bytes) = names.map Name.component := by
    intro names
    rw [Path.innerComponents, List.filterMap_map, List.filterMap_eq_map_iff_forall_eq_some]
    exact fun name _ => Path.component?_of_properName name.proper false
  rw [splitOn_path hempty, ← hnames place.reverse]
  rfl

/-- **The path of a place determines it.** -/
theorem eq_of_same_path {place place' : Place} (hsame : place.path.same place'.path = true) :
    place = place' := by
  rw [Path.same_iff, components_path, components_path, List.cons.injEq] at hsame
  exact List.reverse_injective (List.map_injective_iff.2 Name.component_injective hsame.2)

end Place

/-! ## Following paths -/

namespace World

/-- What was found stands in the tree. Of directories this says nothing. -/
def SpotKnown (t : Tree) (spot : Spot) : Prop :=
  ∀ place node, spot = .taken place node → node ≠ .directory → t.node? place = some node

/-- Only what stands in the tree is found. -/
def FollowsTree (t : Tree) (follow : Follow) : Prop :=
  ∀ place pieces spot, follow place pieces = .ok spot → SpotKnown t spot

theorem spotKnown_taken {t : Tree} {place : Place} {node : Node}
    (hnode : node ≠ .directory → t.node? place = some node) : SpotKnown t (.taken place node) := by
  rintro _ _ ⟨⟩
  exact hnode

theorem spotKnown_free {t : Tree} {place : Place} : SpotKnown t (.free place) := by
  rintro _ _ ⟨⟩

/-- A way keeps to the tree if every way that a link on it leads on does. -/
theorem walk_followsTree {t : Tree} {last : Bool} {follow : Follow} (hfollow : FollowsTree t follow) :
    FollowsTree t (walk t last follow) := by
  intro place pieces
  induction pieces generalizing place with
  | nil =>
    intro spot h
    obtain rfl := Except.ok.inj h
    exact spotKnown_taken fun hne => absurd rfl hne
  | cons piece rest ih =>
    intro spot h
    rw [walk] at h
    by_cases hstay : piece = [] ∨ piece = [dot]
    · rw [if_pos hstay] at h
      exact ih place spot h
    rw [if_neg hstay] at h
    by_cases hup : piece = [dot, dot]
    · rw [if_pos hup] at h
      exact ih place.tail spot h
    rw [if_neg hup] at h
    cases hname : Name.ofBytes? piece with
    | none =>
      rw [hname] at h
      cases h
    | some name =>
      simp only [hname] at h
      cases hnode : t.node? (name :: place) with
      | none =>
        simp only [hnode] at h
        split at h
        · obtain rfl := Except.ok.inj h
          exact spotKnown_free
        · cases h
      | some node =>
        cases node with
        | directory =>
          simp only [hnode] at h
          exact ih (name :: place) spot h
        | file bytes runnable =>
          simp only [hnode] at h
          split at h
          · obtain rfl := Except.ok.inj h
            exact spotKnown_taken fun _ => hnode
          · cases h
        | link target =>
          simp only [hnode] at h
          split at h
          · obtain rfl := Except.ok.inj h
            exact spotKnown_taken fun _ => hnode
          · exact hfollow _ _ spot h

theorem walkWithin_followsTree (t : Tree) (last : Bool) (budget : Nat) :
    FollowsTree t (walkWithin t last budget) := by
  induction budget with
  | zero =>
    refine walk_followsTree ?_
    intro place pieces spot h
    cases h
  | succ budget ih => exact walk_followsTree ih

/-- **A path finds only what stands in the tree.** -/
theorem resolve_known {w : World} {last : Bool} {p : Path} {spot : Spot}
    (h : w.resolve last p = .ok spot) : SpotKnown w.tree spot := by
  rw [resolve] at h
  split at h
  · cases h
  · exact walkWithin_followsTree w.tree last linkBudget _ _ spot h

theorem locate_known {w : World} {p : Path} {place : Place} {node : Node}
    (h : w.locate p = .ok (place, node)) (hne : node ≠ .directory) : w.tree.node? place = some node := by
  rw [locate] at h
  cases hspot : w.resolve true p with
  | error e =>
    rw [hspot] at h
    cases h
  | ok spot =>
    rw [hspot] at h
    cases spot with
    | free place => cases h
    | taken place' node' =>
      cases h
      exact resolve_known hspot _ _ rfl hne

/-! ## Texts -/

theorem readText_eq_ok_iff {w : World} {p : Path} {text : Text} : w.readText p = .ok text ↔
    ∃ place bytes runnable, w.locate p = .ok (place, .file bytes runnable) ∧
      text = Utf8.decodeLossy bytes := by
  rw [readText, read]
  cases hloc : w.locate p with
  | error e => simp
  | ok found =>
    obtain ⟨place, node⟩ := found
    cases node <;> simp [eq_comm]

theorem exists_readText {w : World} {p : Path} (h : (w.readText p).isOk = true) :
    ∃ text, w.readText p = .ok text := by
  cases htext : w.readText p with
  | error e =>
    rw [htext] at h
    cases h
  | ok text => exact ⟨text, rfl⟩

/-- **Paths with one normal form have one text**, as far as both name files. -/
theorem readText_eq_of_same {w : World} {p q : Path} {text text' : Text}
    (hsame : (w.normalize p).same (w.normalize q) = true) (h : w.readText p = .ok text)
    (h' : w.readText q = .ok text') : text = text' := by
  obtain ⟨place, bytes, runnable, hloc, rfl⟩ := readText_eq_ok_iff.1 h
  obtain ⟨place', bytes', runnable', hloc', rfl⟩ := readText_eq_ok_iff.1 h'
  simp only [normalize, hloc, hloc'] at hsame
  obtain rfl := Place.eq_of_same_path hsame
  have hsome := (locate_known hloc (by simp)).symm.trans (locate_known hloc' (by simp))
  cases hsome
  rfl

end World

end RuleAudit
