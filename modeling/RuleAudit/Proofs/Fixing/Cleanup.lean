import RuleAudit.Proofs.Fixing.Comparing

/-!
# Copies made and dropped

Making copies adds files at free places and does nothing else; dropping copies removes what their paths lead
to, unless it is a directory, and does nothing else. So copies that are dropped again leave a tree as it was,
and after whatever has happened to them no path of a copy leads to a file or a link.
-/

namespace RuleAudit.World

/-! ## Dropping -/

/-- Dropping a copy removes the file or link that its path leads to. If there is none, nothing changes. -/
theorem dropCopy_cases (w : World) (cc : CopiedCase) :
    (w.dropCopy cc = w ∧
      ∀ place node, w.resolve false cc.copy = .ok (.taken place node) → node = .directory) ∨
    ∃ place node, w.resolve false cc.copy = .ok (.taken place node) ∧ node ≠ .directory ∧
      w.dropCopy cc = { w with tree := w.tree.erase place } := by
  rw [dropCopy, remove]
  cases w.resolve false cc.copy with
  | error e => exact .inl ⟨rfl, by simp⟩
  | ok spot =>
    cases spot with
    | free place => exact .inl ⟨rfl, by simp⟩
    | taken place node =>
      cases node with
      | directory => exact .inl ⟨rfl, by simp⟩
      | file bytes runnable => exact .inr ⟨place, _, rfl, by simp, rfl⟩
      | link target => exact .inr ⟨place, _, rfl, by simp, rfl⟩

/-- What a path leads to, if no directory, stands in the tree below the root. -/
theorem node?_of_taken {last : Bool} {w : World} {p : Path} {place : Place} {node : Node}
    (h : w.resolve last p = .ok (.taken place node)) (hnode : node ≠ .directory) :
    w.tree.node? place = some node ∧ place ≠ [] := by
  obtain ⟨-, hway⟩ := resolve_eq_ok_iff.1 h
  have hstands := (hway.found.1 _ _ rfl).resolve_left hnode
  refine ⟨hstands, ?_⟩
  rintro rfl
  exact hnode (Option.some.inj hstands).symm

/-- Dropping a copy adds nothing. -/
theorem keeps_of_dropCopy (w : World) (cc : CopiedCase) : (w.dropCopy cc).Keeps w := by
  obtain ⟨hsame, -⟩ | ⟨place, node, htaken, hnode, herased⟩ := w.dropCopy_cases cc
  · rw [hsame]
    exact .refl w
  · rw [herased]
    refine ⟨fun q found hq => ?_, rfl⟩
    by_cases hplace : q = place
    · subst hplace
      cases hq.symm.trans (Tree.node?_erase_self (node?_of_taken htaken hnode).2)
    · rwa [Tree.node?_erase_of_ne hplace] at hq

theorem keeps_of_dropCopies (w : World) (copies : List CopiedCase) :
    (w.dropCopies copies).Keeps w := by
  induction copies generalizing w with
  | nil => exact .refl w
  | cons cc rest ih => exact (ih (w.dropCopy cc)).trans (w.keeps_of_dropCopy cc)

theorem directory_of_dropCopy {w : World} {cc : CopiedCase} {place : Place} {node : Node}
    (h : (w.dropCopy cc).resolve false cc.copy = .ok (.taken place node)) : node = .directory := by
  have hbefore := (w.keeps_of_dropCopy cc).resolve_taken h
  obtain ⟨-, hnone⟩ | ⟨place', node', htaken, hnode, herased⟩ := w.dropCopy_cases cc
  · exact hnone place node hbefore
  · obtain ⟨rfl, rfl⟩ := Spot.taken.inj (Except.ok.inj (hbefore.symm.trans htaken))
    have hstands := (node?_of_taken h hnode).1
    rw [herased] at hstands
    cases hstands.symm.trans (Tree.node?_erase_self (node?_of_taken htaken hnode).2)

/-- **The path of a dropped copy** leads to nothing, or to a directory that was put there. -/
theorem directory_of_dropCopies {w : World} {copies : List CopiedCase} {cc : CopiedCase}
    (hcc : cc ∈ copies) {place : Place} {node : Node}
    (h : (w.dropCopies copies).resolve false cc.copy = .ok (.taken place node)) :
    node = .directory := by
  induction copies generalizing w with
  | nil => cases hcc
  | cons first rest ih =>
    rcases List.mem_cons.1 hcc with rfl | hcc
    · exact directory_of_dropCopy ((keeps_of_dropCopies _ rest).resolve_taken h)
    · exact ih hcc h

/-- **Dropping copies** removes only what their paths led to, and no directory. -/
theorem get?_dropCopies (w : World) (copies : List CopiedCase) (q : Place) :
    (w.dropCopies copies).tree.get? q = w.tree.get? q ∨
      (w.dropCopies copies).tree.get? q = none ∧
        ∃ cc ∈ copies, ∃ node, node ≠ .directory ∧
          w.resolve false cc.copy = .ok (.taken q node) := by
  induction copies generalizing w with
  | nil => exact .inl rfl
  | cons cc rest ih =>
    -- What a later path leads to once this copy is gone, it led to before.
    have hlater : ∀ cc' ∈ rest, ∀ node, (w.dropCopy cc).resolve false cc'.copy = .ok (.taken q node) →
        w.resolve false cc'.copy = .ok (.taken q node) :=
      fun cc' _ node h => (w.keeps_of_dropCopy cc).resolve_taken h
    have hrest : ((w.dropCopy cc).dropCopies rest).tree.get? q = (w.dropCopy cc).tree.get? q ∨
        ((w.dropCopy cc).dropCopies rest).tree.get? q = none ∧ ∃ cc' ∈ cc :: rest, ∃ node,
          node ≠ .directory ∧ w.resolve false cc'.copy = .ok (.taken q node) := by
      refine (ih (w.dropCopy cc)).imp_right ?_
      rintro ⟨hgone, cc', hcc', node, hnode, htaken⟩
      exact ⟨hgone, cc', List.mem_cons_of_mem _ hcc', node, hnode, hlater cc' hcc' node htaken⟩
    rcases hrest with hsame | hgone
    · obtain ⟨hkept, -⟩ | ⟨place, node, htaken, hnode, herased⟩ := w.dropCopy_cases cc
      · exact .inl (hsame.trans (by rw [hkept]))
      · rw [herased] at hsame
        by_cases hplace : q = place
        · subst hplace
          have hnone := hsame.trans (OrderedMap.get?_erase_self _ _)
          rw [← herased] at hnone
          exact .inr ⟨hnone, cc, List.mem_cons_self, node, hnode, htaken⟩
        · rw [OrderedMap.get?_erase_of_ne _ (Tree.compare_ne_of_ne hplace), ← herased] at hsame
          exact .inl hsame
    · exact .inr hgone

theorem node?_dropCopies (w : World) (copies : List CopiedCase) (q : Place) :
    (w.dropCopies copies).tree.node? q = w.tree.node? q ∨
      (w.dropCopies copies).tree.node? q = none ∧
        ∃ cc ∈ copies, ∃ node, node ≠ .directory ∧
          w.resolve false cc.copy = .ok (.taken q node) := by
  rcases w.get?_dropCopies copies q with hsame | ⟨hgone, cc, hcc, node, hnode, htaken⟩
  · exact .inl (by rw [Tree.node?, Tree.node?, hsame])
  · refine .inr ⟨?_, cc, hcc, node, hnode, htaken⟩
    rw [Tree.node?_of_ne_root _ (node?_of_taken htaken hnode).2, hgone]

theorem scratch_dropCopies (w : World) (copies : List CopiedCase) :
    (w.dropCopies copies).scratch = w.scratch := by
  induction copies generalizing w with
  | nil => rfl
  | cons cc rest ih =>
    refine (ih (w.dropCopy cc)).trans ?_
    obtain ⟨hsame, -⟩ | ⟨place, -, -, -, herased⟩ := w.dropCopy_cases cc
    · rw [hsame]
    · rw [herased]

/-! ## Making -/

/-- **Making copies** adds files at places where nothing stood, each found by the path of its copy. -/
theorem get?_copyCases {cases : List GoldenCase} {w w' : World} {copies : List CopiedCase}
    {failure : Option RunError} (h : w.copyCases cases = (copies, failure, w')) (q : Place) :
    w'.tree.get? q = w.tree.get? q ∨
      ∃ cc ∈ copies, w.resolve false cc.copy = .ok (.free q) ∧
        ∃ bytes runnable, w'.tree.get? q = some (.file bytes runnable) := by
  induction cases generalizing w copies with
  | nil =>
    cases h
    exact .inl rfl
  | cons case rest ih =>
    obtain ⟨e, -, rfl, rfl, rfl⟩ | ⟨copy, next, more, hone, hmore, rfl⟩ := copyCases_cons_cases h
    · exact .inl rfl
    · obtain ⟨place, bytes, runnable, hfree, -, rfl⟩ := exists_put_of_copyToScratch hone
      obtain ⟨hgrows, -⟩ := resolve_put_of_free hfree bytes runnable
      rcases ih hmore with hsame | ⟨cc, hcc, hplace, hfile⟩
      · by_cases hq : q = place
        · subst hq
          have hnew : (w.put q (.file bytes runnable)).tree.get? q = some (.file bytes runnable) := by
            rw [put, OrderedMap.get?_insert, if_pos Std.ReflCmp.compare_self]
          exact .inr ⟨_, List.mem_cons_self, hfree, bytes, runnable, hsame.trans hnew⟩
        · rw [put, OrderedMap.get?_insert, if_neg (Tree.compare_ne_of_ne hq)] at hsame
          exact .inl hsame
      · exact .inr ⟨cc, List.mem_cons_of_mem _ hcc, hgrows.free hplace, hfile⟩

theorem node?_copyCases {cases : List GoldenCase} {w w' : World} {copies : List CopiedCase}
    {failure : Option RunError} (h : w.copyCases cases = (copies, failure, w')) (q : Place) :
    w'.tree.node? q = w.tree.node? q ∨
      w.tree.node? q = none ∧ ∃ cc ∈ copies, w.resolve false cc.copy = .ok (.free q) := by
  rcases get?_copyCases h q with hsame | ⟨cc, hcc, hfree, -⟩
  · exact .inl (by rw [Tree.node?, Tree.node?, hsame])
  · exact .inr ⟨node?_of_free hfree, cc, hcc, hfree⟩

theorem scratch_copyCases {cases : List GoldenCase} {w w' : World} {copies : List CopiedCase}
    {failure : Option RunError} (h : w.copyCases cases = (copies, failure, w')) :
    w'.scratch = w.scratch := by
  induction cases generalizing w copies with
  | nil =>
    cases h
    rfl
  | cons case rest ih =>
    obtain ⟨e, -, rfl, rfl, rfl⟩ | ⟨copy, next, more, hone, hmore, rfl⟩ := copyCases_cons_cases h
    · rfl
    · obtain ⟨place, bytes, runnable, -, -, rfl⟩ := exists_put_of_copyToScratch hone
      exact (ih hmore).trans rfl

/-! ## No trace -/

/-- **Copies that are dropped again leave no trace**, whether or not all of them could be made. -/
theorem dropCopies_copyCases {cases : List GoldenCase} {w w' : World} {copies : List CopiedCase}
    {failure : Option RunError} (h : w.copyCases cases = (copies, failure, w')) :
    w'.dropCopies copies = w := by
  obtain ⟨hgrows, hfresh, -, -⟩ := copyCases_spec h
  have hplaces : ∀ cc ∈ copies, ∃ place, w.resolve false cc.copy = .ok (.free place) := by
    intro cc hcc
    obtain ⟨place, -, -, hfree, -, -⟩ := hfresh cc hcc
    exact ⟨place, hfree⟩
  have hkeeps : w.Keeps (w'.dropCopies copies) := (dropCopies_spec hgrows.keeps hplaces).1
  refine World.ext (OrderedMap.ext_get? fun q => ?_) hkeeps.home
    ((w'.scratch_dropCopies copies).trans (scratch_copyCases h))
  rcases w'.get?_dropCopies copies q with hsame | ⟨hgone, cc, hcc, node, hnode, htaken⟩
  · rcases get?_copyCases h q with hold | ⟨cc, hcc, hfree, bytes, runnable, hfile⟩
    · exact hsame.trans hold
    · -- A copy that is still there is found by its path, although it was dropped.
      have hne : q ≠ [] := Tree.Grows.ne_root (node?_of_free hfree)
      have hstands := hkeeps.resolve_free hfree
      rw [Tree.spotAt, Tree.node?_of_ne_root _ hne, hsame, hfile] at hstands
      cases directory_of_dropCopies hcc hstands
  · obtain ⟨place, hfree⟩ := hplaces cc hcc
    have hspot := hgrows.keeps.resolve_free hfree
    rw [htaken, Tree.spotAt] at hspot
    split at hspot
    next => cases hspot
    next =>
      obtain ⟨rfl, -⟩ := Spot.taken.inj (Except.ok.inj hspot)
      have hnone := node?_of_free hfree
      rw [Tree.node?_of_ne_root _ (Tree.Grows.ne_root hnone)] at hnone
      exact hgone.trans hnone.symm

end RuleAudit.World
