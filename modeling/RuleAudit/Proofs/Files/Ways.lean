import Mathlib.Data.List.Basic
import RuleAudit.Files.World
import RuleAudit.Proofs.Files.Places

/-!
# Ways through a file tree

A path is followed piece by piece, and what it finds does not depend on anything off its way. The way of
a path that leads somewhere is told here as a derivation, one rule for each thing that can happen at a
piece, so that facts about paths are proved by going along it.
-/

namespace RuleAudit

/-- The piece stays where it is. -/
def Stays (piece : List UInt8) : Prop := piece = [] ∨ piece = [dot]

theorem ProperName.not_stays {piece : List UInt8} (h : ProperName piece) : ¬ Stays piece :=
  fun hstay => hstay.elim h.1 h.2.1

theorem ProperName.ne_up {piece : List UInt8} (h : ProperName piece) : piece ≠ [dot, dot] := h.2.2.1

/-- The way of some pieces from a place, through at most so many links, and what is at its end. -/
inductive Way (t : Tree) (last : Bool) : Nat → Place → List (List UInt8) → Spot → Prop where
  | stop (n : Nat) (place : Place) : Way t last n place [] (.taken place .directory)
  | stay {n : Nat} {place : Place} {piece : List UInt8} {rest : List (List UInt8)} {spot : Spot} :
      Stays piece → Way t last n place rest spot → Way t last n place (piece :: rest) spot
  | up {n : Nat} {place : Place} {rest : List (List UInt8)} {spot : Spot} :
      Way t last n place.tail rest spot → Way t last n place ([dot, dot] :: rest) spot
  | gap {n : Nat} {place : Place} {piece : List UInt8} (hname : ProperName piece) :
      t.node? (⟨piece, hname⟩ :: place) = none →
      Way t last n place [piece] (.free (⟨piece, hname⟩ :: place))
  | enter {n : Nat} {place : Place} {piece : List UInt8} {rest : List (List UInt8)} {spot : Spot}
      (hname : ProperName piece) : t.node? (⟨piece, hname⟩ :: place) = some .directory →
      Way t last n (⟨piece, hname⟩ :: place) rest spot → Way t last n place (piece :: rest) spot
  | file {n : Nat} {place : Place} {piece bytes : List UInt8} {runnable : Bool} (hname : ProperName piece) :
      t.node? (⟨piece, hname⟩ :: place) = some (.file bytes runnable) →
      Way t last n place [piece] (.taken (⟨piece, hname⟩ :: place) (.file bytes runnable))
  | link {n : Nat} {place : Place} {piece target : List UInt8} (hname : ProperName piece) :
      t.node? (⟨piece, hname⟩ :: place) = some (.link target) → last = false →
      Way t last n place [piece] (.taken (⟨piece, hname⟩ :: place) (.link target))
  | follow {n : Nat} {place : Place} {piece target : List UInt8} {rest : List (List UInt8)} {spot : Spot}
      (hname : ProperName piece) : t.node? (⟨piece, hname⟩ :: place) = some (.link target) →
      rest ≠ [] ∨ last = true →
      Way t last n (if target.head? = some slash then [] else place)
        (Text.splitOn slash target ++ rest) spot →
      Way t last (n + 1) place (piece :: rest) spot

variable {t : Tree} {last : Bool} {n : Nat} {place : Place} {pieces : List (List UInt8)} {spot : Spot}

namespace World

/-! ## Following pieces -/

theorem walk_stay {follow : Follow} {piece : List UInt8} (h : Stays piece) (rest : List (List UInt8)) :
    walk t last follow place (piece :: rest) = walk t last follow place rest := by
  rw [walk, if_pos (show piece = [] ∨ piece = [dot] from h)]

theorem walk_up (follow : Follow) (rest : List (List UInt8)) :
    walk t last follow place ([dot, dot] :: rest) = walk t last follow place.tail rest := by
  rw [walk, if_neg (by simp), if_pos rfl]

theorem walk_name {follow : Follow} {piece : List UInt8} (h : ProperName piece)
    (rest : List (List UInt8)) : walk t last follow place (piece :: rest) =
      match t.node? (⟨piece, h⟩ :: place) with
      | none => if rest.isEmpty then .ok (.free (⟨piece, h⟩ :: place)) else .error .notFound
      | some .directory => walk t last follow (⟨piece, h⟩ :: place) rest
      | some (.file bytes runnable) =>
        if rest.isEmpty then .ok (.taken (⟨piece, h⟩ :: place) (.file bytes runnable))
        else .error .notADirectory
      | some (.link target) =>
        if rest.isEmpty && !last then .ok (.taken (⟨piece, h⟩ :: place) (.link target))
        else
          follow (if target.head? = some slash then [] else place)
            (Text.splitOn slash target ++ rest) := by
  have hname : Name.ofBytes? piece = some ⟨piece, h⟩ := dif_pos h
  rw [walk, if_neg (show ¬ (piece = [] ∨ piece = [dot]) from h.not_stays), if_neg h.ne_up]
  split
  next hnone => cases hname.symm.trans hnone
  next hsome =>
    obtain rfl := Option.some.inj (hname.symm.trans hsome)
    rfl

/-- Other pieces lead nowhere. -/
theorem walk_of_not_properName {follow : Follow} {piece : List UInt8} (hstay : ¬ Stays piece)
    (hup : piece ≠ [dot, dot]) (h : ¬ ProperName piece) (rest : List (List UInt8)) :
    walk t last follow place (piece :: rest) = .error .notFound := by
  have hname : Name.ofBytes? piece = none := dif_neg h
  rw [walk, if_neg (show ¬ (piece = [] ∨ piece = [dot]) from hstay), if_neg hup]
  simp only [hname]

/-- Following pieces is a walk, whatever happens at links. -/
theorem exists_walkWithin_eq (t : Tree) (last : Bool) (n : Nat) :
    ∃ follow, walkWithin t last n = walk t last follow := by
  cases n with
  | zero => exact ⟨_, rfl⟩
  | succ n => exact ⟨_, rfl⟩

/-- A walk that ends well goes along a way, if following a link does. -/
theorem way_of_walk {follow : Follow} (hfollow : ∀ place pieces spot,
      follow place pieces = .ok spot → ∃ m, n = m + 1 ∧ Way t last m place pieces spot)
    (h : walk t last follow place pieces = .ok spot) : Way t last n place pieces spot := by
  induction pieces generalizing place with
  | nil =>
    obtain rfl := Except.ok.inj h
    exact .stop n place
  | cons piece rest ih =>
    by_cases hstay : Stays piece
    · rw [walk_stay hstay] at h
      exact .stay hstay (ih h)
    by_cases hup : piece = [dot, dot]
    · subst hup
      rw [walk_up] at h
      exact .up (ih h)
    by_cases hname : ProperName piece
    case neg =>
      rw [walk_of_not_properName hstay hup hname] at h
      cases h
    rw [walk_name hname] at h
    cases hnode : t.node? (⟨piece, hname⟩ :: place) with
    | none =>
      simp only [hnode] at h
      split at h
      next hrest =>
        obtain rfl := List.isEmpty_iff.1 hrest
        obtain rfl := Except.ok.inj h
        exact .gap hname hnode
      next => cases h
    | some node =>
      cases node with
      | directory =>
        simp only [hnode] at h
        exact .enter hname hnode (ih h)
      | file bytes runnable =>
        simp only [hnode] at h
        split at h
        next hrest =>
          obtain rfl := List.isEmpty_iff.1 hrest
          obtain rfl := Except.ok.inj h
          exact .file hname hnode
        next => cases h
      | link target =>
        simp only [hnode] at h
        split at h
        next hrest =>
          rw [Bool.and_eq_true, List.isEmpty_iff, Bool.not_eq_true'] at hrest
          obtain ⟨rfl, hlast⟩ := hrest
          obtain rfl := Except.ok.inj h
          exact .link hname hnode hlast
        next hrest =>
          obtain ⟨m, rfl, hway⟩ := hfollow _ _ _ h
          refine .follow hname hnode ?_ hway
          rw [Bool.and_eq_true, List.isEmpty_iff, Bool.not_eq_true', not_and_or,
            Bool.not_eq_false] at hrest
          exact hrest

/-- **Following pieces succeeds exactly along a way.** -/
theorem walkWithin_eq_ok_iff :
    walkWithin t last n place pieces = .ok spot ↔ Way t last n place pieces spot := by
  constructor
  · intro h
    induction n generalizing place pieces spot with
    | zero =>
      refine way_of_walk ?_ h
      intro place pieces spot hfollow
      cases hfollow
    | succ n ih => exact way_of_walk (fun _ _ _ hfollow => ⟨n, rfl, ih hfollow⟩) h
  · intro h
    induction h with
    | stop n place =>
      obtain ⟨follow, hwalk⟩ := exists_walkWithin_eq t last n
      rw [hwalk, walk]
    | @stay n place piece rest spot hstay _ ih =>
      obtain ⟨follow, hwalk⟩ := exists_walkWithin_eq t last n
      rw [hwalk] at ih ⊢
      rw [walk_stay hstay, ih]
    | @up n place rest spot _ ih =>
      obtain ⟨follow, hwalk⟩ := exists_walkWithin_eq t last n
      rw [hwalk] at ih ⊢
      rw [walk_up, ih]
    | @gap n place piece hname hnode =>
      obtain ⟨follow, hwalk⟩ := exists_walkWithin_eq t last n
      simp only [hwalk, walk_name hname, hnode]
      rfl
    | @enter n place piece rest spot hname hnode _ ih =>
      obtain ⟨follow, hwalk⟩ := exists_walkWithin_eq t last n
      rw [hwalk] at ih ⊢
      simp only [walk_name hname, hnode, ih]
    | @file n place piece bytes runnable hname hnode =>
      obtain ⟨follow, hwalk⟩ := exists_walkWithin_eq t last n
      simp only [hwalk, walk_name hname, hnode]
      rfl
    | @link n place piece target hname hnode hlast =>
      subst hlast
      obtain ⟨follow, hwalk⟩ := exists_walkWithin_eq t false n
      simp only [hwalk, walk_name hname, hnode]
      rfl
    | @follow n place piece target rest spot hname hnode hgoes _ ih =>
      have hmore : (rest.isEmpty && !last) = false := by
        rcases hgoes with hrest | hlast
        · simp [hrest]
        · simp [hlast]
      rw [walkWithin]
      simp only [walk_name hname, hnode, hmore, ih]
      rfl

/-- Where the way of a path starts. -/
def startOf (w : World) (p : Path) : Place := if p.isAbsolute then [] else w.home

/-- **A path leads somewhere exactly along its way.** -/
theorem resolve_eq_ok_iff {w : World} {p : Path} : w.resolve last p = .ok spot ↔
    p.bytes ≠ [] ∧ Way w.tree last linkBudget (w.startOf p) (Text.splitOn slash p.bytes) spot := by
  rw [resolve]
  by_cases hempty : p.bytes = []
  · simp [hempty]
  · rw [if_neg (by simpa using hempty), walkWithin_eq_ok_iff]
    exact (and_iff_right hempty).symm

theorem locate_eq_ok_iff {w : World} {p : Path} {node : Node} :
    w.locate p = .ok (place, node) ↔ w.resolve true p = .ok (.taken place node) := by
  rw [locate]
  cases h : w.resolve true p with
  | error e => simp
  | ok spot => cases spot <;> simp

end World

namespace Way

/-! ## What is found -/

/-- What is found stands in the tree, or nothing does. -/
theorem found (h : Way t last n place pieces spot) :
    (∀ p node, spot = .taken p node → node = .directory ∨ t.node? p = some node) ∧
      ∀ p, spot = .free p → t.node? p = none := by
  induction h with
  | stop =>
    refine ⟨?_, by rintro _ ⟨⟩⟩
    rintro _ _ ⟨⟩
    exact .inl rfl
  | stay _ _ ih => exact ih
  | up _ ih => exact ih
  | gap _ hnode =>
    refine ⟨by rintro _ _ ⟨⟩, ?_⟩
    rintro _ ⟨⟩
    exact hnode
  | enter _ _ _ ih => exact ih
  | file _ hnode =>
    refine ⟨?_, by rintro _ ⟨⟩⟩
    rintro _ _ ⟨⟩
    exact .inr hnode
  | link _ hnode _ =>
    refine ⟨?_, by rintro _ ⟨⟩⟩
    rintro _ _ ⟨⟩
    exact .inr hnode
  | follow _ _ _ _ ih => exact ih

/-- A way that would not follow a link at its end, but ends at none, is one that would follow it. -/
theorem followed (h : Way t false n place pieces spot)
    (hspot : ∀ p target, spot ≠ .taken p (.link target)) : Way t true n place pieces spot := by
  induction h with
  | stop n place => exact .stop n place
  | stay hstay _ ih => exact .stay hstay (ih hspot)
  | up _ ih => exact .up (ih hspot)
  | gap hname hnode => exact .gap hname hnode
  | enter hname hnode _ ih => exact .enter hname hnode (ih hspot)
  | file hname hnode => exact .file hname hnode
  | link => exact absurd rfl (hspot _ _)
  | follow hname hnode _ _ ih => exact .follow hname hnode (.inr rfl) (ih hspot)

/-! ## Pieces that do not count -/

def counts (piece : List UInt8) : Bool := piece ≠ [] && piece ≠ [dot]

theorem counts_iff {piece : List UInt8} : counts piece = true ↔ ¬ Stays piece := by
  simp [counts, Stays]

theorem of_cons {piece : List UInt8} (hpiece : Stays piece)
    (h : Way t last n place (piece :: pieces) spot) : Way t last n place pieces spot := by
  cases h with
  | stay _ hrest => exact hrest
  | up => simp [Stays] at hpiece
  | gap hname => exact absurd hpiece hname.not_stays
  | enter hname => exact absurd hpiece hname.not_stays
  | file hname => exact absurd hpiece hname.not_stays
  | link hname => exact absurd hpiece hname.not_stays
  | follow hname => exact absurd hpiece hname.not_stays

/-- Pieces that do not count lead nowhere else. -/
theorem of_append {before : List (List UInt8)} (hbefore : ∀ piece ∈ before, Stays piece)
    (h : Way t last n place (before ++ pieces) spot) : Way t last n place pieces spot := by
  induction before with
  | nil => exact h
  | cons piece before ih =>
    obtain ⟨hpiece, hbefore⟩ := List.forall_mem_cons.1 hbefore
    exact ih hbefore (of_cons hpiece h)

/-- Pieces that agree with others as far as they count. -/
theorem exists_of_counted {piece : List UInt8} {rest others : List (List UInt8)} (hpiece : ¬ Stays piece)
    (hothers : others.filter counts = (piece :: rest).filter counts) :
    ∃ before rest', others = before ++ piece :: rest' ∧ (∀ p ∈ before, Stays p) ∧
      rest'.filter counts = rest.filter counts := by
  rw [List.filter_cons_of_pos (counts_iff.2 hpiece)] at hothers
  obtain ⟨before, rest', rfl, hbefore, -, hrest⟩ := List.filter_eq_cons_iff.1 hothers
  refine ⟨before, rest', rfl, fun p hp => ?_, hrest⟩
  have := hbefore p hp
  rwa [counts_iff, not_not] at this

/-- **Pieces that do not count make no difference** to what is found. -/
theorem eq_of_counted {others : List (List UInt8)} {n' : Nat} {p p' : Place} {node node' : Node}
    (h : Way t true n place pieces (.taken p node))
    (h' : Way t true n' place others (.taken p' node'))
    (hothers : others.filter counts = pieces.filter counts) : p = p' ∧ node = node' := by
  generalize hspot : Spot.taken p node = spot at h
  induction h generalizing n' others with
  | stop n place =>
    cases hspot
    have hstays : ∀ piece ∈ others, Stays piece := by
      intro piece hpiece
      have := List.filter_eq_nil_iff.1 hothers piece hpiece
      rwa [counts_iff, not_not] at this
    rw [← List.append_nil others] at h'
    cases of_append hstays h' with
    | stop => exact ⟨rfl, rfl⟩
  | @stay n place piece rest spot hstay _ ih =>
    refine ih h' ?_ hspot
    rwa [List.filter_cons_of_neg (by rwa [counts_iff, not_not])] at hothers
  | @up n place rest spot _ ih =>
    obtain ⟨before, rest', rfl, hbefore, hrest⟩ := exists_of_counted (by simp [Stays]) hothers
    cases of_append hbefore h' with
    | stay hstay => simp [Stays] at hstay
    | up h' => exact ih h' hrest hspot
    | enter hname => exact absurd rfl hname.ne_up
    | file hname => exact absurd rfl hname.ne_up
    | link hname => exact absurd rfl hname.ne_up
    | follow hname => exact absurd rfl hname.ne_up
  | gap => cases hspot
  | @enter n place piece rest spot hname hnode _ ih =>
    obtain ⟨before, rest', rfl, hbefore, hrest⟩ := exists_of_counted hname.not_stays hothers
    cases of_append hbefore h' with
    | stay hstay => exact absurd hstay hname.not_stays
    | up => exact absurd rfl hname.ne_up
    | enter _ _ h' => exact ih h' hrest hspot
    | file _ hnode' => cases hnode.symm.trans hnode'
    | link _ hnode' => cases hnode.symm.trans hnode'
    | follow _ hnode' => cases hnode.symm.trans hnode'
  | @file n place piece bytes runnable hname hnode =>
    obtain ⟨before, rest', rfl, hbefore, hrest⟩ := exists_of_counted hname.not_stays hothers
    cases hspot
    cases of_append hbefore h' with
    | stay hstay => exact absurd hstay hname.not_stays
    | up => exact absurd rfl hname.ne_up
    | enter _ hnode' => cases hnode.symm.trans hnode'
    | file _ hnode' =>
      cases hnode.symm.trans hnode'
      exact ⟨rfl, rfl⟩
    | link _ hnode' => cases hnode.symm.trans hnode'
    | follow _ hnode' => cases hnode.symm.trans hnode'
  | link _ _ hlast => cases hlast
  | @follow n place piece target rest spot hname hnode _ _ ih =>
    obtain ⟨before, rest', rfl, hbefore, hrest⟩ := exists_of_counted hname.not_stays hothers
    cases of_append hbefore h' with
    | stay hstay => exact absurd hstay hname.not_stays
    | up => exact absurd rfl hname.ne_up
    | enter _ hnode' => cases hnode.symm.trans hnode'
    | file _ hnode' => cases hnode.symm.trans hnode'
    | link _ _ hlast => cases hlast
    | follow _ hnode' _ h' =>
      cases hnode.symm.trans hnode'
      exact ih h' (by rw [List.filter_append, List.filter_append, hrest]) hspot

end Way

/-! ## Spellings of a path -/

/-- The components after the root are the pieces that count. -/
theorem Path.map_bytes_innerComponents (pieces : List (List UInt8)) :
    (innerComponents pieces).map Component.bytes = pieces.filter Way.counts := by
  induction pieces with
  | nil => rfl
  | cons piece rest ih =>
    rw [innerComponents, List.filterMap_cons, List.filter_cons, ← innerComponents]
    by_cases hempty : piece = []
    · simpa [component?, Way.counts, hempty] using ih
    by_cases hdot : piece = [dot]
    · simpa [component?, Way.counts, hdot] using ih
    by_cases hup : piece = [dot, dot]
    · simpa [component?, Way.counts, hup, Component.bytes] using ih
    · simpa [component?, Way.counts, hempty, hdot, hup, Component.bytes] using ih

namespace World

/-- **Spellings of an absolute path** that all name something name the same. -/
theorem locate_eq_of_same {w : World} {p q : Path} {found found' : Place × Node}
    (hp : p.isAbsolute = true) (hq : q.isAbsolute = true) (hsame : p.same q = true)
    (h : w.locate p = .ok found) (h' : w.locate q = .ok found') : found = found' := by
  rw [Path.same_iff, Path.components_of_isAbsolute hp, Path.components_of_isAbsolute hq,
    List.cons.injEq] at hsame
  have hpieces := congrArg (List.map Component.bytes) hsame.2
  rw [Path.map_bytes_innerComponents, Path.map_bytes_innerComponents] at hpieces
  obtain ⟨-, hway⟩ := resolve_eq_ok_iff.1 (locate_eq_ok_iff.1 h)
  obtain ⟨-, hway'⟩ := resolve_eq_ok_iff.1 (locate_eq_ok_iff.1 h')
  rw [startOf, if_pos hp] at hway
  rw [startOf, if_pos hq] at hway'
  exact Prod.ext_iff.2 (hway.eq_of_counted hway' hpieces.symm)

/-- What a path leads to that follows no link at its end, and is no link, is what the path names. -/
theorem locate_of_resolve {w : World} {p : Path} {node : Node}
    (h : w.resolve false p = .ok (.taken place node)) (hnode : ∀ target, node ≠ .link target) :
    w.locate p = .ok (place, node) := by
  obtain ⟨hne, hway⟩ := resolve_eq_ok_iff.1 h
  refine locate_eq_ok_iff.2 (resolve_eq_ok_iff.2 ⟨hne, hway.followed ?_⟩)
  intro p target hspot
  exact hnode target (Spot.taken.inj hspot).2

theorem normalize_eq_of_same {w : World} {p q : Path} (hp : p.isAbsolute = true)
    (hq : q.isAbsolute = true) (hsame : p.same q = true) (h : w.has p = true)
    (h' : w.has q = true) : w.normalize p = w.normalize q := by
  rw [has] at h h'
  cases hloc : w.locate p with
  | error e =>
    rw [hloc] at h
    cases h
  | ok found =>
    cases hloc' : w.locate q with
    | error e =>
      rw [hloc'] at h'
      cases h'
    | ok found' =>
      obtain rfl := locate_eq_of_same hp hq hsame hloc hloc'
      rw [normalize, normalize, hloc, hloc']

end World

end RuleAudit
