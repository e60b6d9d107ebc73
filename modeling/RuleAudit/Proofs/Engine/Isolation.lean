import RuleAudit.Proofs.Engine.Exchanges
import RuleAudit.Proofs.Files.Keeping

/-!
# Engines that change nothing but their targets

The targets of an invocation are files at places where nothing stood at first, and no two invocations share
such a place. An engine that changes nothing but what its targets name then leaves everything that stood at
first, and what one invocation leaves at its places stays as it is until the end, whatever the others do.
-/

namespace RuleAudit

/-- The path names what stands at a place, a link at its end followed or not. -/
def World.Names (w : World) (p : Path) (place : Place) : Prop :=
  ∃ last node, w.resolve last p = .ok (.taken place node)

/-- Whatever the engine is asked, it changes nothing but what its targets name. -/
structure Engine.ChangesOnlyTargets (engine : Engine) : Prop where
  unchanged (i : Invocation) (w : World) (place : Place) :
    (∀ t ∈ i.targets, ¬ w.Names t place) →
      (engine i w).2.tree.node? place = w.tree.node? place
  home (i : Invocation) (w : World) : (engine i w).2.home = w.home

namespace World

/-- Some target of the invocation led at first to the place, where nothing stood. -/
def Owns (first : World) (i : Invocation) (place : Place) : Prop :=
  ∃ t ∈ i.targets, first.resolve false t = .ok (.free place)

/-- A path that led to a free place at first names no other place than this one once a file stands
there. -/
theorem Keeps.eq_of_names {first w : World} (h : first.Keeps w) {p : Path} {place place' : Place}
    {bytes : List UInt8} {runnable : Bool} (hfirst : first.resolve false p = .ok (.free place))
    (hfile : w.tree.node? place = some (.file bytes runnable)) (hnames : w.Names p place') :
    place' = place := by
  have hresolve : w.resolve false p = .ok (.taken place (.file bytes runnable)) := by
    rw [h.resolve_free hfirst, Tree.spotAt, hfile]
  obtain ⟨last, node, hnode⟩ := hnames
  cases last with
  | false =>
    rw [hresolve] at hnode
    exact (Spot.taken.inj (Except.ok.inj hnode)).1.symm
  | true =>
    have hlocate := locate_of_resolve hresolve (by simp)
    rw [locate_eq_ok_iff.1 hlocate] at hnode
    exact (Spot.taken.inj (Except.ok.inj hnode)).1.symm

/-- What stood at first stands at no place that an invocation owns. -/
theorem not_owns_of_node {first : World} {place : Place} {node : Node}
    (h : first.tree.node? place = some node) (i : Invocation) : ¬ first.Owns i place := by
  intro howns
  obtain ⟨t, -, ht⟩ := howns
  rw [node?_of_free ht] at h
  cases h

end World

/-- Some invocations have their targets at places of their own: files where nothing stood at first, no two
invocations sharing one, in a world where everything that stood at first still stands. -/
structure Prepared (first w : World) (is : List Invocation) : Prop where
  keeps : first.Keeps w
  filed : ∀ i ∈ is, ∀ t ∈ i.targets, ∃ place bytes runnable,
    first.resolve false t = .ok (.free place) ∧ w.tree.node? place = some (.file bytes runnable)
  apart : is.Pairwise fun i j => ∀ place, first.Owns i place → ¬ first.Owns j place

theorem Engine.exchanges_append (engine : Engine) (is js : List Invocation) (w : World) :
    (engine.exchanges (is ++ js) w).2 = (engine.exchanges js (engine.exchanges is w).2).2 := by
  induction is generalizing w with
  | nil => rfl
  | cons i rest ih => exact ih _

namespace Prepared

variable {engine : Engine} (hengine : engine.ChangesOnlyTargets) {first w : World} {i : Invocation}
  {is rest : List Invocation}
include hengine

/-- **One invocation** changes nothing but the places that it owns, and leaves the others prepared. -/
theorem step (h : Prepared first w (i :: rest)) : Prepared first (engine i w).2 rest ∧
    ∀ place, ¬ first.Owns i place → (engine i w).2.tree.node? place = w.tree.node? place := by
  have hunchanged : ∀ place, ¬ first.Owns i place →
      (engine i w).2.tree.node? place = w.tree.node? place := by
    intro place hplace
    refine hengine.unchanged i w place ?_
    intro t ht hnames
    obtain ⟨place', bytes, runnable, hfirst, hfile⟩ := h.filed i List.mem_cons_self t ht
    obtain rfl := h.keeps.eq_of_names hfirst hfile hnames
    exact hplace ⟨t, ht, hfirst⟩
  obtain ⟨hapart, hrest⟩ := List.pairwise_cons.1 h.apart
  refine ⟨⟨⟨?_, ?_⟩, ?_, hrest⟩, hunchanged⟩
  · intro place node hnode
    rw [hunchanged place (World.not_owns_of_node hnode i)]
    exact h.keeps.tree place node hnode
  · rw [hengine.home, h.keeps.home]
  · intro j hj t ht
    obtain ⟨place, bytes, runnable, hfirst, hfile⟩ := h.filed j (List.mem_cons_of_mem i hj) t ht
    refine ⟨place, bytes, runnable, hfirst, ?_⟩
    rw [hunchanged place fun howns => hapart j hj place howns ⟨t, ht, hfirst⟩]
    exact hfile

/-- **A run of some invocations** changes nothing but the places that they own, and leaves the others
prepared. -/
theorem run (h : Prepared first w (is ++ rest)) :
    Prepared first (engine.exchanges is w).2 rest ∧
      ∀ place, (∀ i ∈ is, ¬ first.Owns i place) →
        (engine.exchanges is w).2.tree.node? place = w.tree.node? place := by
  induction is generalizing w with
  | nil => exact ⟨h, fun _ _ => rfl⟩
  | cons i is ih =>
    obtain ⟨hnext, hone⟩ := h.step hengine
    obtain ⟨hrest, hmore⟩ := ih hnext
    refine ⟨hrest, ?_⟩
    intro place hplace
    obtain ⟨hi, his⟩ := List.forall_mem_cons.1 hplace
    exact (hmore place his).trans (hone place hi)

/-- **What an invocation leaves at its places stays** as it is until the end. -/
theorem left (h : Prepared first w (is ++ i :: rest)) {place : Place} (hplace : first.Owns i place) :
    (engine.exchanges (is ++ i :: rest) w).2.tree.node? place =
      (engine.exchanges (is ++ [i]) w).2.tree.node? place := by
  have hsplit : is ++ i :: rest = (is ++ [i]) ++ rest := by simp
  have hothers : ∀ j ∈ rest, ¬ first.Owns j place := by
    intro j hj hj'
    have hcons := (List.pairwise_append.1 h.apart).2.1
    exact List.rel_of_pairwise_cons hcons hj place hplace hj'
  rw [hsplit] at h ⊢
  rw [engine.exchanges_append]
  -- The later invocations start prepared, and none of them owns the place.
  have hleft := (h.run hengine).1
  rw [← List.append_nil rest] at hleft
  exact (hleft.run hengine).2 place hothers

end Prepared

/-! ## Editing engines -/

/-- The edit of one more target: if it named a file, something else stands there now, or nothing. -/
def World.edit (w : World) (edits : Path → Option Node) (edited : World) (t : Path) : World :=
  match w.locate t with
  | .ok (place, .file _ _) =>
    match edits t with
    | some node => edited.put place node
    | none => { edited with tree := edited.tree.erase place }
  | _ => edited

/-- An engine that puts something else in the place of each target that is a file, or nothing. -/
def Engine.editing (reply : Invocation → Reply) (edits : Invocation → Path → Option Node) : Engine :=
  fun i w => (reply i, i.targets.foldl (w.edit (edits i)) w)

namespace World

variable {w edited : World} {edits : Path → Option Node}

@[simp] theorem home_edit (t : Path) : (w.edit edits edited t).home = edited.home := by
  rw [edit]
  split
  next => split <;> rfl
  next => rfl

theorem node?_edit {t : Path} {place : Place} (h : ¬ w.Names t place) :
    (w.edit edits edited t).tree.node? place = edited.tree.node? place := by
  rw [edit]
  split
  next found _ _ hlocate =>
    have hne : place ≠ found := by
      rintro rfl
      exact h ⟨true, _, locate_eq_ok_iff.1 hlocate⟩
    split
    next => exact Tree.node?_insert_of_ne hne _
    next => exact Tree.node?_erase_of_ne hne
  next => rfl

theorem home_foldl_edit (ts : List Path) : (ts.foldl (w.edit edits) edited).home = edited.home := by
  induction ts generalizing edited with
  | nil => rfl
  | cons t rest ih => rw [List.foldl_cons, ih, home_edit]

theorem node?_foldl_edit {ts : List Path} {place : Place} (h : ∀ t ∈ ts, ¬ w.Names t place) :
    (ts.foldl (w.edit edits) edited).tree.node? place = edited.tree.node? place := by
  induction ts generalizing edited with
  | nil => rfl
  | cons t rest ih =>
    obtain ⟨ht, hrest⟩ := List.forall_mem_cons.1 h
    rw [List.foldl_cons, ih hrest, node?_edit ht]

end World

/-- **An editing engine changes nothing but its targets.** -/
theorem Engine.changesOnlyTargets_editing (reply : Invocation → Reply)
    (edits : Invocation → Path → Option Node) : (editing reply edits).ChangesOnlyTargets where
  unchanged _ _ _ h := World.node?_foldl_edit h
  home i _ := World.home_foldl_edit i.targets

end RuleAudit
