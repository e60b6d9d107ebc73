import RuleAudit.Fixing.Comparison
import RuleAudit.Proofs.Files.Ways
import RuleAudit.Proofs.Ordered.Lookup

/-!
# Trees in which everything still stands

As long as everything that stood in a tree still stands there, what a path found before it still finds,
whatever else is new. A path that led to a free place leads to that place still, and finds what stands there
now.
-/

namespace RuleAudit

/-- Everything that stands in a tree stands in another one too. -/
def Tree.Keeps (t t' : Tree) : Prop := ∀ p node, t.node? p = some node → t'.node? p = some node

/-- What there is to find at a place by a path that follows no link at its end. -/
def Tree.spotAt (t : Tree) (place : Place) : Spot :=
  match t.node? place with
  | none => .free place
  | some node => .taken place node

variable {t t' : Tree} {last : Bool} {n : Nat} {place : Place} {pieces : List (List UInt8)} {spot : Spot}

/-! ## One change -/

namespace Tree

theorem node?_of_ne_root (t : Tree) {p : Place} (hp : p ≠ []) : t.node? p = t.get? p := by
  rw [node?, if_neg (by simpa using hp)]

theorem compare_ne_of_ne {p q : Place} (h : q ≠ p) : compare q p ≠ .eq := fun hsame =>
  h (Std.LawfulEqOrd.compare_eq_iff_eq.1 hsame)

theorem node?_insert_self {p : Place} (hp : p ≠ []) (node : Node) :
    Tree.node? (t.insert p node) p = some node := by
  rw [node?_of_ne_root _ hp, OrderedMap.get?_insert, if_pos Std.ReflCmp.compare_self]

theorem node?_insert_of_ne {p q : Place} (h : q ≠ p) (node : Node) :
    Tree.node? (t.insert p node) q = t.node? q := by
  by_cases hroot : q = []
  · subst hroot
    rfl
  · rw [node?_of_ne_root _ hroot, node?_of_ne_root _ hroot, OrderedMap.get?_insert,
      if_neg (compare_ne_of_ne h)]

theorem node?_erase_self {p : Place} (hp : p ≠ []) : Tree.node? (t.erase p) p = none := by
  rw [node?_of_ne_root _ hp, OrderedMap.get?_erase_self]

theorem node?_erase_of_ne {p q : Place} (h : q ≠ p) : Tree.node? (t.erase p) q = t.node? q := by
  by_cases hroot : q = []
  · subst hroot
    rfl
  · rw [node?_of_ne_root _ hroot, node?_of_ne_root _ hroot,
      OrderedMap.get?_erase_of_ne _ (compare_ne_of_ne h)]

end Tree

/-! ## Ways -/

theorem Tree.spotAt_congr (h : t'.node? place = t.node? place) : t'.spotAt place = t.spotAt place := by
  rw [spotAt, spotAt, h]

namespace Way

/-- A way that finds something finds it as long as everything still stands. -/
theorem keep (hkeeps : t.Keeps t') {p : Place} {node : Node}
    (h : Way t last n place pieces (.taken p node)) :
    Way t' last n place pieces (.taken p node) := by
  generalize hspot : Spot.taken p node = spot at h
  induction h with
  | stop n place => exact .stop n place
  | stay hstay _ ih => exact .stay hstay (ih hspot)
  | up _ ih => exact .up (ih hspot)
  | gap => cases hspot
  | enter hname hnode _ ih => exact .enter hname (hkeeps _ _ hnode) (ih hspot)
  | file hname hnode => exact .file hname (hkeeps _ _ hnode)
  | link hname hnode hlast => exact .link hname (hkeeps _ _ hnode) hlast
  | follow hname hnode hgoes _ ih => exact .follow hname (hkeeps _ _ hnode) hgoes (ih hspot)

/-- **A way to a free place** leads there as long as everything still stands, and finds what stands there
now. -/
theorem reach (hkeeps : t.Keeps t') {p : Place} (h : Way t false n place pieces (.free p)) :
    Way t' false n place pieces (t'.spotAt p) := by
  generalize hspot : Spot.free p = spot at h
  induction h with
  | stop => cases hspot
  | stay hstay _ ih => exact .stay hstay (ih hspot)
  | up _ ih => exact .up (ih hspot)
  | @gap n place piece hname _ =>
    cases hspot
    rw [Tree.spotAt]
    cases hnode : t'.node? (⟨piece, hname⟩ :: place) with
    | none => exact .gap hname hnode
    | some node =>
      cases node with
      | file bytes runnable => exact .file hname hnode
      | directory => exact .enter hname hnode (.stop n _)
      | link target => exact .link hname hnode rfl
  | enter hname hnode _ ih => exact .enter hname (hkeeps _ _ hnode) (ih hspot)
  | file => cases hspot
  | link => cases hspot
  | follow hname hnode hgoes _ ih => exact .follow hname (hkeeps _ _ hnode) hgoes (ih hspot)

end Way

/-! ## Files as a program sees them -/

/-- Everything still stands, seen from the same place. -/
structure World.Keeps (w w' : World) : Prop where
  tree : w.tree.Keeps w'.tree
  home : w'.home = w.home

namespace World

theorem read_eq_ok_iff {w : World} {p : Path} {bytes : List UInt8} : w.read p = .ok bytes ↔
    ∃ place runnable, w.locate p = .ok (place, .file bytes runnable) := by
  rw [read]
  cases hloc : w.locate p with
  | error e => simp
  | ok found =>
    obtain ⟨place, node⟩ := found
    cases node <;> simp

/-- The file that a path names stands at its place. -/
theorem node?_of_locate {w : World} {p : Path} {place : Place} {bytes : List UInt8}
    {runnable : Bool} (h : w.locate p = .ok (place, .file bytes runnable)) :
    w.tree.node? place = some (.file bytes runnable) := by
  obtain ⟨-, hway⟩ := resolve_eq_ok_iff.1 (locate_eq_ok_iff.1 h)
  exact (hway.found.1 _ _ rfl).resolve_left (by simp)

/-- Nothing stands at a free place. -/
theorem node?_of_free {w : World} {p : Path} {place : Place}
    (h : w.resolve last p = .ok (.free place)) : w.tree.node? place = none := by
  obtain ⟨-, hway⟩ := resolve_eq_ok_iff.1 h
  exact hway.found.2 _ rfl

namespace Keeps

variable {w w' : World}

theorem startOf (h : w.Keeps w') (p : Path) : w'.startOf p = w.startOf p := by
  rw [World.startOf, World.startOf, h.home]

theorem refl (w : World) : w.Keeps w := ⟨fun _ _ => id, rfl⟩

theorem trans {w'' : World} (h : w.Keeps w') (h' : w'.Keeps w'') : w.Keeps w'' :=
  ⟨fun p node hnode => h'.tree p node (h.tree p node hnode), h'.home.trans h.home⟩

/-- Where a path leads to something, it leads to it as long as everything still stands. -/
theorem resolve_taken (h : w.Keeps w') {p : Path} {place : Place} {node : Node}
    (hp : w.resolve last p = .ok (.taken place node)) :
    w'.resolve last p = .ok (.taken place node) := by
  obtain ⟨hne, hway⟩ := resolve_eq_ok_iff.1 hp
  rw [← h.startOf p] at hway
  exact resolve_eq_ok_iff.2 ⟨hne, hway.keep h.tree⟩

/-- **What was found is found again.** -/
theorem locate (h : w.Keeps w') {p : Path} {found : Place × Node} (hp : w.locate p = .ok found) :
    w'.locate p = .ok found :=
  locate_eq_ok_iff.2 (h.resolve_taken (locate_eq_ok_iff.1 hp))

theorem read (h : w.Keeps w') {p : Path} {bytes : List UInt8} (hp : w.read p = .ok bytes) :
    w'.read p = .ok bytes := by
  obtain ⟨place, runnable, hloc⟩ := read_eq_ok_iff.1 hp
  exact read_eq_ok_iff.2 ⟨place, runnable, h.locate hloc⟩

theorem readText (h : w.Keeps w') {p : Path} {text : Text} (hp : w.readText p = .ok text) :
    w'.readText p = .ok text := by
  rw [World.readText] at hp ⊢
  cases hread : w.read p with
  | error cause => simp [hread] at hp
  | ok bytes =>
    rw [h.read hread]
    rwa [hread] at hp

/-- **What a path finds now** that led to a free place. -/
theorem resolve_free (h : w.Keeps w') {p : Path} {place : Place}
    (hp : w.resolve false p = .ok (.free place)) :
    w'.resolve false p = .ok (w'.tree.spotAt place) := by
  obtain ⟨hne, hway⟩ := resolve_eq_ok_iff.1 hp
  rw [← h.startOf p] at hway
  exact resolve_eq_ok_iff.2 ⟨hne, hway.reach h.tree⟩

end Keeps

end World

end RuleAudit
