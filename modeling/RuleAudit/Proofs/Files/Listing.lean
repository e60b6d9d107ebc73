import Mathlib.Data.List.Nodup
import RuleAudit.Files.Listing
import RuleAudit.Proofs.Files.Places
import RuleAudit.Proofs.Ordered.Lookup
import RuleAudit.Proofs.Ordered.Membership
import RuleAudit.Proofs.Path.Relative
import RuleAudit.Proofs.Path.Texts

/-!
# Paths that listings find

A listing starts from the path that the text of its root names, whatever the spelling, and goes down one name
at a time. So what it finds lies below that path, and its last name is valid UTF-8. No two listed paths are
spellings of one another, since no two children of a directory have one name.
-/

namespace RuleAudit

/-! ## Children -/

namespace Tree

/-- The children of a place are the keys of the tree that lie directly below it. -/
theorem map_cons_childNames (t : Tree) (place : Place) :
    (t.childNames place).map (· :: place) =
      t.keys.filter fun key => key.tail = place ∧ key ≠ [] := by
  rw [childNames]
  induction t.keys with
  | nil => rfl
  | cons key rest ih =>
    cases key with
    | nil => simpa using ih
    | cons name parent => by_cases h : parent = place <;> simp [h, ih]

/-- No two children of a directory have one name. -/
theorem nodup_childNames (t : Tree) (place : Place) : (t.childNames place).Nodup := by
  have hkeys : t.keys.Nodup := OrderedMap.nodup_keys t
  have hnodup : ((t.childNames place).map (· :: place)).Nodup := by
    rw [map_cons_childNames]
    exact hkeys.filter _
  exact hnodup.of_map _

end Tree

theorem Path.isAbsolute_join {p : Path} (h : p.isAbsolute = true) (q : Path) :
    (p.join q).isAbsolute = true := by
  have hne : p.bytes ≠ [] := by
    intro he
    simp [isAbsolute, he] at h
  obtain ⟨c, rest, htext⟩ := List.exists_cons_of_ne_nil hne
  rw [join]
  by_cases hq : q.isAbsolute = true
  · rwa [if_pos hq]
  · rw [if_neg hq]
    split <;> simpa [isAbsolute, htext] using h

/-- A piece between slashes is a relative path. -/
theorem Path.isAbsolute_of_not_mem {piece : List UInt8} (h : slash ∉ piece) :
    Path.isAbsolute ⟨piece⟩ = false := by
  rw [Path.isAbsolute, beq_eq_false_iff_ne]
  exact fun hhead => h (List.mem_of_mem_head? hhead)

namespace World

variable {w : World} {root start p q : Path}

/-- The files that a listing finds. -/
def filesBelow (w : World) (root : Path) : List Path := (w.everythingBelow root).filter w.isFile

/-! ## Names below a path -/

theorem isCurrent_iff : isCurrent p = true ↔ p.components = [.here] := by
  have hcurrent : Path.components ⟨[dot]⟩ = [.here] := by decide
  rw [isCurrent, Path.same_iff, hcurrent]

/-- The components that come before a name put behind a path: none for the working directory alone. -/
def ahead (p : Path) : List Component := if isCurrent p then [] else p.components

theorem components_childOf (p : Path) (name : Name) :
    (childOf p name.bytes).components = ahead p ++ [name.component] := by
  rw [childOf, ahead]
  split
  · exact Path.components_name name.proper
  · exact Path.components_join_name p name.proper

theorem ahead_childOf (p : Path) (name : Name) :
    ahead (childOf p name.bytes) = ahead p ++ [name.component] := by
  have hcurrent : ¬ isCurrent (childOf p name.bytes) = true := by
    rw [isCurrent_iff, components_childOf]
    exact fun h => by simpa [Name.component] using congrArg List.getLast? h
  rw [ahead, if_neg hcurrent, components_childOf]

/-- The path some names below another one. -/
def down (p : Path) (names : List Name) : Path := names.foldl (fun p name => childOf p name.bytes) p

theorem down_cons (p : Path) (name : Name) (rest : List Name) :
    down p (name :: rest) = down (childOf p name.bytes) rest := rfl

theorem down_append (p : Path) (dirs names : List Name) :
    down (down p dirs) names = down p (dirs ++ names) := by
  rw [down, down, down, List.foldl_append]

theorem ahead_down (p : Path) (names : List Name) :
    ahead (down p names) = ahead p ++ names.map Name.component := by
  induction names generalizing p with
  | nil => exact (List.append_nil _).symm
  | cons name rest ih =>
    rw [down_cons, ih, ahead_childOf]
    simp

/-- Names below a path add themselves. -/
theorem components_down (p : Path) {names : List Name} (hne : names ≠ []) :
    (down p names).components = ahead p ++ names.map Name.component := by
  obtain ⟨dirs, name, rfl⟩ := (List.eq_nil_or_concat' names).resolve_left hne
  rw [← down_append, down_cons, down, List.foldl_nil, components_childOf, ahead_down]
  simp

theorem not_isCurrent (h : p.isAbsolute = true) : ¬ isCurrent p = true := by
  intro hcurrent
  rw [Path.isAbsolute_iff, isCurrent_iff.1 hcurrent] at h
  simp at h

theorem ahead_eq_components (h : ¬ isCurrent p = true) : ahead p = p.components := if_neg h

theorem isAbsolute_childOf (h : p.isAbsolute = true) (name : List UInt8) :
    (childOf p name).isAbsolute = true := by
  rw [childOf, if_neg (not_isCurrent h)]
  exact Path.isAbsolute_join h ⟨name⟩

/-! ## Pieces of a root -/

/-- A path that pieces are put behind: not the empty one, and not the working directory alone. -/
structure Extends (p : Path) : Prop where
  bytes_ne_nil : p.bytes ≠ []
  not_current : ¬ isCurrent p = true

theorem extends_of_isAbsolute (h : p.isAbsolute = true) : Extends p where
  bytes_ne_nil := by
    intro he
    simp [Path.isAbsolute, he] at h
  not_current := not_isCurrent h

/-- What is put behind a path adds what it counts for. -/
theorem Extends.components_childOf (h : Extends p) {piece : List UInt8} (hpiece : slash ∉ piece) :
    (World.childOf p piece).components = p.components ++ Path.innerComponents [piece] := by
  rw [World.childOf, if_neg h.not_current,
    Path.components_join h.bytes_ne_nil (Path.isAbsolute_of_not_mem hpiece),
    Text.splitOn_of_not_mem hpiece]

theorem Extends.childOf (h : Extends p) {piece : List UInt8} (hpiece : slash ∉ piece) :
    Extends (World.childOf p piece) where
  bytes_ne_nil := by
    rw [World.childOf, if_neg h.not_current, Path.join,
      if_neg (by simp [Path.isAbsolute_of_not_mem hpiece])]
    split <;> simp [h.bytes_ne_nil]
  not_current := by
    rw [isCurrent_iff, h.components_childOf hpiece]
    intro hcurrent
    -- The components of the path come first, so they would be the working directory.
    obtain ⟨c, rest, hc⟩ := List.exists_cons_of_ne_nil (Path.components_ne_nil h.bytes_ne_nil)
    rw [hc, List.cons_append, List.cons.injEq, List.append_eq_nil_iff] at hcurrent
    obtain ⟨rfl, rfl, -⟩ := hcurrent
    exact h.not_current (isCurrent_iff.2 hc)

theorem eq_childOf_of_enter {piece : List UInt8} (hq : w.enter p piece = some q) :
    q = childOf p piece := by
  simp only [enter] at hq
  split at hq <;> split at hq <;> cases hq <;> rfl

/-! ## The start of a listing -/

/-- Entering pieces adds what they count for. -/
theorem components_foldlM_enter {pieces : List (List UInt8)} (h : Extends p)
    (hpieces : ∀ piece ∈ pieces, slash ∉ piece)
    (hq : pieces.foldlM (fun p piece => w.enter p piece) p = some q) :
    q.components = p.components ++ Path.innerComponents pieces := by
  induction pieces generalizing p with
  | nil =>
    obtain rfl : p = q := by simpa using hq
    simp [Path.innerComponents]
  | cons piece rest ih =>
    obtain ⟨hpiece, hrest⟩ := List.forall_mem_cons.1 hpieces
    rw [List.foldlM_cons, Option.bind_eq_bind, Option.bind_eq_some_iff] at hq
    obtain ⟨next, hnext, hq⟩ := hq
    obtain rfl := eq_childOf_of_enter hnext
    rw [ih (h.childOf hpiece) hrest hq, h.components_childOf hpiece, List.append_assoc,
      ← Path.innerComponents_append, List.singleton_append]

/-- The pieces of an absolute root are entered from the root of the file system. -/
theorem scope?_eq (h : root.isAbsolute = true) : ∃ rest, root.viaText.bytes = slash :: rest ∧
    ∀ w : World, w.scope? root =
      (Text.splitOn slash rest).foldlM (fun p piece => w.enter p piece) ⟨[slash]⟩ := by
  rw [← Path.isAbsolute_viaText] at h
  cases hbytes : root.viaText.bytes with
  | nil =>
    rw [Path.isAbsolute, hbytes] at h
    cases h
  | cons b rest =>
    obtain rfl : b = slash := by simpa [Path.isAbsolute, hbytes] using h
    refine ⟨rest, rfl, fun w => ?_⟩
    rw [scope?, hbytes]
    rfl

/-- **A listing starts from its root** by way of the text of that, however the root is spelled. -/
theorem components_scope (h : root.isAbsolute = true) (hstart : w.scope? root = some start) :
    start.components = root.viaText.components := by
  obtain ⟨rest, hbytes, hscope⟩ := scope?_eq h
  have hroot : Path.components ⟨[slash]⟩ = [.root] := by decide
  rw [hscope] at hstart
  rw [components_foldlM_enter (extends_of_isAbsolute rfl) (fun piece => Text.not_mem_of_mem_splitOn)
      hstart, hroot, Path.components_of_isAbsolute ((Path.isAbsolute_viaText root).trans h), hbytes]
  simp [Text.splitOn, Path.innerComponents, Path.component?]

theorem isAbsolute_scope (h : root.isAbsolute = true) (hstart : w.scope? root = some start) :
    start.isAbsolute = true := by
  rw [Path.isAbsolute_congr (Path.same_iff.2 (components_scope h hstart)), Path.isAbsolute_viaText, h]

/-! ## What is listed -/

theorem mem_below_succ_iff {depth : Nat} : q ∈ w.below (depth + 1) p ↔
    ∃ place, w.locate p = .ok (place, .directory) ∧ ∃ name ∈ w.tree.childNames place,
      (q = childOf p name.bytes ∧ Utf8.isValid name.bytes = true) ∨
        q ∈ w.below depth (childOf p name.bytes) := by
  have hlisted : ∀ name : Name, q ∈ (if Utf8.isValid name.bytes then [childOf p name.bytes] else []) ↔
      q = childOf p name.bytes ∧ Utf8.isValid name.bytes = true := by
    intro name
    split <;> simp [*]
  rw [below]
  split
  next place hplace => simp [hplace, hlisted]
  next hother => simpa using fun place hplace => absurd hplace (hother place)

theorem isAbsolute_of_mem_below {depth : Nat} (h : p.isAbsolute = true)
    (hq : q ∈ w.below depth p) : q.isAbsolute = true := by
  induction depth generalizing p with
  | zero => cases hq
  | succ depth ih =>
    obtain ⟨-, -, name, -, ⟨rfl, -⟩ | hq⟩ := mem_below_succ_iff.1 hq
    · exact isAbsolute_childOf h name.bytes
    · exact ih (isAbsolute_childOf h name.bytes) hq

/-- A listing is what lies below its start, in path order. -/
theorem exists_scope_of_mem (hp : p ∈ w.everythingBelow root) :
    ∃ start, w.scope? root = some start ∧ p ∈ w.below w.depthBound start := by
  rw [everythingBelow] at hp
  cases hstart : w.scope? root with
  | none => simp [hstart] at hp
  | some start =>
    simp only [hstart] at hp
    exact ⟨start, rfl, (sortOn_perm _ _).mem_iff.1 hp⟩

/-- **A listing of an absolute root** has absolute paths only. -/
theorem isAbsolute_of_mem_everythingBelow (h : root.isAbsolute = true)
    (hp : p ∈ w.everythingBelow root) : p.isAbsolute = true := by
  obtain ⟨start, hstart, hp⟩ := exists_scope_of_mem hp
  exact isAbsolute_of_mem_below (isAbsolute_scope h hstart) hp

/-! ## Below the root -/

/-- Whatever is listed below a path is the path some names below it, the last of them valid UTF-8. -/
theorem exists_down_of_mem_below {depth : Nat} (hq : q ∈ w.below depth p) :
    ∃ dirs name, q = down p (dirs ++ [name]) ∧ Utf8.isValid name.bytes = true := by
  induction depth generalizing p with
  | zero => cases hq
  | succ depth ih =>
    obtain ⟨place, -, name, -, ⟨rfl, hvalid⟩ | hq⟩ := mem_below_succ_iff.1 hq
    · exact ⟨[], name, rfl, hvalid⟩
    · obtain ⟨dirs, last, rfl, hvalid⟩ := ih hq
      exact ⟨name :: dirs, last, rfl, hvalid⟩

/-- **Every listed path** lies below the root, by way of the text of that, and its name is valid UTF-8. -/
theorem exists_liesAt_of_mem_everythingBelow (h : root.isAbsolute = true)
    (hp : p ∈ w.everythingBelow root) :
    ∃ dirs name, Utf8.isValid name = true ∧ root.viaText.LiesAt dirs name p := by
  obtain ⟨start, hstart, hp⟩ := exists_scope_of_mem hp
  obtain ⟨dirs, name, rfl, hvalid⟩ := exists_down_of_mem_below hp
  refine ⟨dirs.map Name.bytes, name.bytes, hvalid, ?_⟩
  rw [Path.LiesAt, components_down start (by simp),
    ahead_eq_components (not_isCurrent (isAbsolute_scope h hstart)), components_scope h hstart,
    List.map_append, List.map_map, List.append_assoc]
  rfl

/-! ## No repeats -/

/-- A child and all below it come after the parent by the name of the child and maybe more names. -/
theorem exists_names_of_childOf {depth : Nat} {name : Name}
    (hq : q = childOf p name.bytes ∨ q ∈ w.below depth (childOf p name.bytes)) :
    ∃ names, q.components = ahead p ++ (name :: names).map Name.component := by
  obtain rfl | hq := hq
  · exact ⟨[], components_childOf p name⟩
  · obtain ⟨dirs, last, rfl, -⟩ := exists_down_of_mem_below hq
    exact ⟨dirs ++ [last], by rw [components_down _ (by simp), ahead_childOf]; simp⟩

/-- No two paths below a directory have the same components. -/
theorem pairwise_below (w : World) (depth : Nat) (p : Path) :
    (w.below depth p).Pairwise fun a b => a.components ≠ b.components := by
  induction depth generalizing p with
  | zero => exact .nil
  | succ depth ih =>
    rw [below]
    split
    next place hplace =>
      rw [List.pairwise_flatMap]
      have hchild : ∀ {name : Name} {x}, x ∈ (if Utf8.isValid name.bytes then [childOf p name.bytes]
          else []) ++ w.below depth (childOf p name.bytes) →
            x = childOf p name.bytes ∨ x ∈ w.below depth (childOf p name.bytes) := by
        intro name x hx
        refine (List.mem_append.1 hx).imp_left fun hx => ?_
        split at hx
        · exact List.mem_singleton.1 hx
        · cases hx
      constructor
      · intro name hname
        -- A child comes before what is below it, which has more components.
        have hafter : ∀ q ∈ w.below depth (childOf p name.bytes),
            (childOf p name.bytes).components ≠ q.components := by
          intro q hq
          obtain ⟨dirs, last, rfl, -⟩ := exists_down_of_mem_below hq
          rw [components_down _ (by simp), ahead_childOf, components_childOf]
          simp
        rw [List.pairwise_append]
        refine ⟨?_, ih _, ?_⟩
        · split <;> simp
        · intro x hx q hq
          split at hx
          · rw [List.mem_singleton.1 hx]
            exact hafter q hq
          · cases hx
      · -- What is below two children differs in their names.
        refine (Tree.nodup_childNames w.tree place).imp_of_mem ?_
        intro a b ha hb hne x hx y hy heq
        obtain ⟨names, hnames⟩ := exists_names_of_childOf (hchild hx)
        obtain ⟨names', hnames'⟩ := exists_names_of_childOf (hchild hy)
        rw [hnames, hnames', List.append_cancel_left_eq, List.map_cons, List.map_cons,
          List.cons.injEq] at heq
        exact hne (Name.component_injective heq.1)
    · exact .nil

/-- **A listing ascends strictly**: it has no two spellings of one path. -/
theorem ascending_everythingBelow (w : World) (root : Path) :
    (w.everythingBelow root).Pairwise Before := by
  rw [everythingBelow]
  cases hstart : w.scope? root with
  | none => exact .nil
  | some start =>
    have hdistinct := (sortOn_perm Path.key (w.below w.depthBound start)).pairwise_iff
      (fun hne heq => hne heq.symm) |>.2 (pairwise_below w w.depthBound start)
    refine ((sortOn_ascending Path.key _).and hdistinct).imp ?_
    rintro a b ⟨hle, hne⟩
    refine Ordering.isLE_iff_eq_lt_or_eq_eq.1 hle |>.resolve_right fun heq => hne ?_
    exact Path.same_iff.1 (Path.compare_eq_iff.1 heq)

end World

end RuleAudit
