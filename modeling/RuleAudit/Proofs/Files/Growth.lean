import RuleAudit.Fixing.Scratch
import RuleAudit.Proofs.Files.Keeping

/-!
# Trees with more files

New files in a tree leave everything else where it is: what a path found before it still finds, and a
path that leads to a free place led there before. So a file that is made where nothing stood is found by
that path, and by no path that found something before.
-/

namespace RuleAudit

/-- All of a tree is there in another one, which has nothing more than files. -/
structure Tree.Grows (t t' : Tree) : Prop where
  kept {p : Place} {node : Node} : t.node? p = some node → t'.node? p = some node
  old {p : Place} {node : Node} : t'.node? p = some node →
    (∀ bytes runnable, node ≠ .file bytes runnable) → t.node? p = some node

namespace Tree.Grows

theorem refl (t : Tree) : t.Grows t := ⟨id, fun h _ => h⟩

theorem trans {t t' t'' : Tree} (h : t.Grows t') (h' : t'.Grows t'') : t.Grows t'' where
  kept hnode := h'.kept (h.kept hnode)
  old hnode hfile := h.old (h'.old hnode hfile) hfile

theorem none_of_none {t t' : Tree} (h : t.Grows t') {p : Place} (hp : t'.node? p = none) :
    t.node? p = none := by
  cases hnode : t.node? p with
  | none => rfl
  | some node => cases hp.symm.trans (h.kept hnode)

theorem ne_root {t : Tree} {p : Place} (hp : t.node? p = none) : p ≠ [] := by
  rintro rfl
  cases hp

/-- A new file. -/
theorem insert {t : Tree} {p : Place} (hp : t.node? p = none) (bytes : List UInt8)
    (runnable : Bool) : t.Grows (t.insert p (.file bytes runnable)) where
  kept {q node} hq := by
    by_cases hsame : q = p
    · cases (hsame ▸ hq).symm.trans hp
    · rw [node?_insert_of_ne hsame]
      exact hq
  old {q node} hq hfile := by
    by_cases hsame : q = p
    · rw [hsame, node?_insert_self (ne_root hp)] at hq
      exact absurd (Option.some.inj hq).symm (hfile bytes runnable)
    · rwa [node?_insert_of_ne hsame] at hq

end Tree.Grows

variable {t t' : Tree} {last : Bool} {n : Nat} {place : Place} {pieces : List (List UInt8)}

namespace Way

/-- What is free in a tree with more files was free before. -/
theorem shrink (hgrows : t.Grows t') {p : Place} (h : Way t' last n place pieces (.free p)) :
    Way t last n place pieces (.free p) := by
  generalize hspot : Spot.free p = spot at h
  induction h with
  | stop => cases hspot
  | stay hstay _ ih => exact .stay hstay (ih hspot)
  | up _ ih => exact .up (ih hspot)
  | gap hname hnode => exact .gap hname (hgrows.none_of_none hnode)
  | enter hname hnode _ ih => exact .enter hname (hgrows.old hnode (by simp)) (ih hspot)
  | file => cases hspot
  | link => cases hspot
  | follow hname hnode hgoes _ ih =>
    exact .follow hname (hgrows.old hnode (by simp)) hgoes (ih hspot)

end Way

/-! ## Files as a program sees them -/

/-- The same files and more, seen from the same places. -/
structure World.Grows (w w' : World) : Prop where
  tree : w.tree.Grows w'.tree
  home : w'.home = w.home

namespace World

namespace Grows

variable {w w' w'' : World}

theorem refl (w : World) : w.Grows w := ⟨.refl w.tree, rfl⟩

theorem trans (h : w.Grows w') (h' : w'.Grows w'') : w.Grows w'' :=
  ⟨h.tree.trans h'.tree, h'.home.trans h.home⟩

theorem keeps (h : w.Grows w') : w.Keeps w' := ⟨fun _ _ hnode => h.tree.kept hnode, h.home⟩

/-- **What was found is found again.** -/
theorem locate (h : w.Grows w') {p : Path} {found : Place × Node} (hp : w.locate p = .ok found) :
    w'.locate p = .ok found :=
  h.keeps.locate hp

theorem read (h : w.Grows w') {p : Path} {bytes : List UInt8} (hp : w.read p = .ok bytes) :
    w'.read p = .ok bytes :=
  h.keeps.read hp

/-- **What is free was free before.** -/
theorem free (h : w.Grows w') {p : Path} {place : Place}
    (hp : w'.resolve last p = .ok (.free place)) : w.resolve last p = .ok (.free place) := by
  obtain ⟨hne, hway⟩ := resolve_eq_ok_iff.1 hp
  rw [h.keeps.startOf p] at hway
  exact resolve_eq_ok_iff.2 ⟨hne, hway.shrink h.tree⟩

end Grows

/-- What a copy of a regular file is made of: its bytes, and whether it may be run. -/
def contents (w : World) (p : Path) : Except Cause (List UInt8 × Bool) :=
  match w.locate p with
  | .ok (_, .file bytes runnable) => .ok (bytes, runnable)
  | .ok _ => .error .notRegular
  | .error e => .error e

/-- **A copy at a free place** is a new file. -/
theorem copy_eq_of_free {w : World} {target : Path} {place : Place}
    (hfree : w.resolve false target = .ok (.free place)) (source : Path) :
    w.copy source target = (w.contents source).map fun c => w.put place (.file c.1 c.2) := by
  obtain ⟨hne, hway⟩ := resolve_eq_ok_iff.1 hfree
  have htarget : w.resolve true target = .ok (.free place) :=
    resolve_eq_ok_iff.2 ⟨hne, hway.followed (by simp)⟩
  rw [copy, contents]
  cases w.locate source with
  | error e => rfl
  | ok found =>
    obtain ⟨origin, node⟩ := found
    cases node with
    | file bytes runnable => simp only [htarget, Except.map]
    | _ => rfl

theorem read_of_contents {w : World} {p : Path} {bytes : List UInt8} {runnable : Bool}
    (h : w.contents p = .ok (bytes, runnable)) : w.read p = .ok bytes := by
  rw [contents] at h
  split at h
  next place bytes' runnable' hloc =>
    cases h
    exact read_eq_ok_iff.2 ⟨place, runnable, hloc⟩
  next => cases h
  next => cases h

/-- **A new file** is found by any path that led to its place, and nothing else changes. -/
theorem resolve_put_of_free {w : World} {p : Path} {place : Place}
    (hfree : w.resolve false p = .ok (.free place)) (bytes : List UInt8) (runnable : Bool) :
    w.Grows (w.put place (.file bytes runnable)) ∧
      (w.put place (.file bytes runnable)).resolve false p =
        .ok (.taken place (.file bytes runnable)) := by
  have hnone := node?_of_free hfree
  have hgrows : w.Grows (w.put place (.file bytes runnable)) :=
    ⟨.insert hnone bytes runnable, rfl⟩
  refine ⟨hgrows, ?_⟩
  rw [hgrows.keeps.resolve_free hfree, Tree.spotAt, put,
    Tree.node?_insert_self (Tree.Grows.ne_root hnone)]

end World

end RuleAudit
