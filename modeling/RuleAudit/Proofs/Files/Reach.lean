import RuleAudit.Proofs.Files.Listing
import RuleAudit.Proofs.Files.Ways

/-!
# What listings reach

A listing goes down to a bounded depth, and the bound is never in the way: a path that leads to something
leads through a directory at each of its pieces, between two links it only goes down, and it may lead
through so many links only. So a listing reaches whatever lies below its start by some names, however the
way there winds.
-/

namespace RuleAudit

namespace Way

variable {t : Tree} {last : Bool} {n : Nat} {place : Place} {pieces : List (List UInt8)} {spot : Spot}

/-! ## Parts of a way -/

/-- **The first part of a way leads to a directory**, from which the other part goes on. -/
theorem split {before after : List (List UInt8)} (h : Way t last n place (before ++ after) spot)
    (hafter : after ≠ []) : ∃ m p, m ≤ n ∧ Way t true n place before (.taken p .directory) ∧
      Way t last m p after spot := by
  -- A link spends one of the links that are left, any other piece is one piece less.
  induction n using Nat.strong_induction_on generalizing place before with
  | _ n ihlinks =>
    induction before generalizing place with
    | nil => exact ⟨n, place, Nat.le_refl n, .stop n place, h⟩
    | cons piece before ih =>
      have hmore : before ++ after ≠ [] := by simp [hafter]
      rw [List.cons_append] at h
      generalize hrest : before ++ after = rest at h hmore
      cases h with
      | stay hstay h =>
        obtain ⟨m, p, hm, hway, hend⟩ := ih (hrest ▸ h)
        exact ⟨m, p, hm, .stay hstay hway, hend⟩
      | up h =>
        obtain ⟨m, p, hm, hway, hend⟩ := ih (hrest ▸ h)
        exact ⟨m, p, hm, .up hway, hend⟩
      | gap => exact absurd rfl hmore
      | enter hname hnode h =>
        obtain ⟨m, p, hm, hway, hend⟩ := ih (hrest ▸ h)
        exact ⟨m, p, hm, .enter hname hnode hway, hend⟩
      | file => exact absurd rfl hmore
      | link => exact absurd rfl hmore
      | @follow n' _ _ target _ _ hname hnode _ h =>
        rw [← hrest, ← List.append_assoc] at h
        obtain ⟨m, p, hm, hway, hend⟩ := ihlinks n' (Nat.lt_succ_self n') h
        exact ⟨m, p, by omega, .follow hname hnode (.inr rfl) hway, hend⟩

/-- The first part of a way to a directory leads to a directory. -/
theorem exists_directory {before after : List (List UInt8)} {p : Place}
    (h : Way t true n place (before ++ after) (.taken p .directory)) :
    ∃ p', Way t true n place before (.taken p' .directory) := by
  by_cases hafter : after = []
  · rw [hafter, List.append_nil] at h
    exact ⟨p, h⟩
  · obtain ⟨-, p', -, hway, -⟩ := split h hafter
    exact ⟨p', hway⟩

/-! ## Pieces that do not count -/

/-- What is left of pieces when some that do not count are left out begins with the first that counts. -/
theorem exists_of_sublist {piece : List UInt8} {rest others : List (List UInt8)} (hpiece : ¬ Stays piece)
    (hsub : others.Sublist (piece :: rest))
    (hothers : others.filter counts = (piece :: rest).filter counts) :
    ∃ rest', others = piece :: rest' ∧ rest'.Sublist rest ∧
      rest'.filter counts = rest.filter counts := by
  rw [List.filter_cons_of_pos (counts_iff.2 hpiece)] at hothers
  cases hsub with
  | cons _ hsub =>
    have hlen := (hsub.filter counts).length_le
    rw [hothers, List.length_cons] at hlen
    omega
  | @cons_cons rest' _ _ hsub =>
    rw [List.filter_cons_of_pos (counts_iff.2 hpiece), List.cons.injEq] at hothers
    exact ⟨rest', rfl, hsub, hothers.2⟩

/-- A way may leave out pieces that do not count. -/
theorem of_sublist {others : List (List UInt8)} (h : Way t true n place pieces spot)
    (hsub : others.Sublist pieces) (hothers : others.filter counts = pieces.filter counts) :
    Way t true n place others spot := by
  induction h generalizing others with
  | stop n place =>
    obtain rfl := List.sublist_nil.1 hsub
    exact .stop n place
  | @stay n place piece rest spot hstay _ ih =>
    have hnot : ¬ counts piece = true := by rwa [counts_iff, not_not]
    rw [List.filter_cons_of_neg hnot] at hothers
    cases hsub with
    | cons _ hsub => exact ih hsub hothers
    | cons_cons _ hsub =>
      rw [List.filter_cons_of_neg hnot] at hothers
      exact .stay hstay (ih hsub hothers)
  | up _ ih =>
    obtain ⟨rest', rfl, hsub, hrest⟩ := exists_of_sublist (by simp [Stays]) hsub hothers
    exact .up (ih hsub hrest)
  | gap hname hnode =>
    obtain ⟨rest', rfl, hsub, -⟩ := exists_of_sublist hname.not_stays hsub hothers
    obtain rfl := List.sublist_nil.1 hsub
    exact .gap hname hnode
  | enter hname hnode _ ih =>
    obtain ⟨rest', rfl, hsub, hrest⟩ := exists_of_sublist hname.not_stays hsub hothers
    exact .enter hname hnode (ih hsub hrest)
  | file hname hnode =>
    obtain ⟨rest', rfl, hsub, -⟩ := exists_of_sublist hname.not_stays hsub hothers
    obtain rfl := List.sublist_nil.1 hsub
    exact .file hname hnode
  | link _ _ hlast => cases hlast
  | follow hname hnode _ _ ih =>
    obtain ⟨rest', rfl, hsub, hrest⟩ := exists_of_sublist hname.not_stays hsub hothers
    refine .follow hname hnode (.inr rfl) (ih (hsub.append_left _) ?_)
    rw [List.filter_append, List.filter_append, hrest]

theorem append_stays {before : List (List UInt8)} (hbefore : ∀ piece ∈ before, Stays piece)
    (h : Way t last n place pieces spot) : Way t last n place (before ++ pieces) spot := by
  induction before with
  | nil => exact h
  | cons piece before ih =>
    obtain ⟨hpiece, hbefore⟩ := List.forall_mem_cons.1 hbefore
    exact .stay hpiece (ih hbefore)

/-- **A way to a directory** may have other pieces that do not count, also at its end. -/
theorem directory_of_counted {others : List (List UInt8)} {p : Place}
    (h : Way t true n place pieces (.taken p .directory))
    (hothers : others.filter counts = pieces.filter counts) :
    Way t true n place others (.taken p .directory) := by
  generalize hspot : Spot.taken p .directory = spot at h
  induction h generalizing others with
  | stop n place =>
    cases hspot
    rw [← List.append_nil others]
    refine append_stays (fun piece hpiece => ?_) (.stop _ _)
    have hnot := List.filter_eq_nil_iff.1 hothers piece hpiece
    rwa [counts_iff, not_not] at hnot
  | @stay n place piece rest spot hstay _ ih =>
    refine ih ?_ hspot
    rwa [List.filter_cons_of_neg (by rwa [counts_iff, not_not])] at hothers
  | up _ ih =>
    obtain ⟨before, rest', rfl, hbefore, hrest⟩ := exists_of_counted (by simp [Stays]) hothers
    exact append_stays hbefore (.up (ih hrest hspot))
  | gap => cases hspot
  | enter hname hnode _ ih =>
    obtain ⟨before, rest', rfl, hbefore, hrest⟩ := exists_of_counted hname.not_stays hothers
    exact append_stays hbefore (.enter hname hnode (ih hrest hspot))
  | file => cases hspot
  | link _ _ hlast => cases hlast
  | follow hname hnode _ _ ih =>
    obtain ⟨before, rest', rfl, hbefore, hrest⟩ := exists_of_counted hname.not_stays hothers
    refine append_stays hbefore (.follow hname hnode (.inr rfl) (ih ?_ hspot))
    rw [List.filter_append, List.filter_append, hrest]

/-- A way that follows a link at its end is there also if that link is not followed. -/
theorem unfollowed {p : Place} {node : Node} (h : Way t true n place pieces (.taken p node)) :
    ∃ p' node', Way t false n place pieces (.taken p' node') := by
  generalize hspot : Spot.taken p node = spot at h
  induction h with
  | stop n place => exact ⟨_, _, .stop n place⟩
  | stay hstay _ ih =>
    obtain ⟨p', node', hway⟩ := ih hspot
    exact ⟨p', node', .stay hstay hway⟩
  | up _ ih =>
    obtain ⟨p', node', hway⟩ := ih hspot
    exact ⟨p', node', .up hway⟩
  | gap => cases hspot
  | enter hname hnode _ ih =>
    obtain ⟨p', node', hway⟩ := ih hspot
    exact ⟨p', node', .enter hname hnode hway⟩
  | file hname hnode => exact ⟨_, _, .file hname hnode⟩
  | link _ _ hlast => cases hlast
  | @follow n place piece target rest spot hname hnode _ _ ih =>
    by_cases hrest : rest = []
    · subst hrest
      exact ⟨_, _, .link hname hnode rfl⟩
    · obtain ⟨p', node', hway⟩ := ih hspot
      exact ⟨p', node', .follow hname hnode (.inl hrest) hway⟩

/-! ## The length of a way -/

/-- How many places of the tree lie deeper than a place. -/
def deeper (t : Tree) (place : Place) : Nat := t.keys.countP fun key => place.length < key.length

theorem deeper_le_size (t : Tree) (place : Place) : deeper t place ≤ t.size := by
  have hlen : t.keys.length = t.size := List.length_map _
  exact hlen ▸ List.countP_le_length

/-- Something below a place is deeper than it. -/
theorem deeper_lt {name : Name} {node : Node} (h : t.node? (name :: place) = some node) :
    deeper t (name :: place) < deeper t place := by
  have hkey : name :: place ∈ t.keys := OrderedMap.mem_keys_iff.2 (Option.isSome_of_eq_some h)
  obtain ⟨before, after, hkeys⟩ := List.append_of_mem hkey
  have hle : ∀ keys : List Place,
      keys.countP (fun key => (name :: place).length < key.length) ≤
        keys.countP fun key => place.length < key.length := by
    intro keys
    refine List.countP_mono_left fun key _ hkey => ?_
    simp only [List.length_cons, decide_eq_true_eq] at hkey ⊢
    omega
  have hbefore := hle before
  have hafter := hle after
  -- The place itself is deeper than the one above it, and not deeper than itself.
  rw [deeper, deeper, hkeys, List.countP_append, List.countP_append,
    List.countP_cons_of_neg (by simp), List.countP_cons_of_pos (by simp)]
  omega

/-- **A way down some names** has at most one piece for each place between two links. -/
theorem length_le {names : List Name} {p : Place} {node : Node}
    (h : Way t true n place (names.map Name.bytes) (.taken p node)) :
    names.length ≤ deeper t place + n * (t.size + 1) := by
  induction n using Nat.strong_induction_on generalizing place names with
  | _ n ihlinks =>
    induction names generalizing place with
    | nil => exact Nat.zero_le _
    | cons name rest ih =>
      rw [List.map_cons] at h
      generalize hpieces : rest.map Name.bytes = pieces at h
      generalize hpiece : name.bytes = piece at h
      have hproper : ProperName piece := hpiece ▸ name.proper
      cases h with
      | stay hstay => exact absurd hstay hproper.not_stays
      | up => exact absurd rfl hproper.ne_up
      | enter _ hnode h =>
        have hlt := deeper_lt hnode
        have hle := ih (hpieces ▸ h)
        rw [List.length_cons]
        omega
      | file _ hnode =>
        obtain rfl := List.map_eq_nil_iff.1 hpieces
        have hlt := deeper_lt hnode
        rw [List.length_singleton]
        omega
      | link _ _ hlast => cases hlast
      | @follow n' _ _ target _ _ _ _ _ h =>
        rw [Nat.succ_mul, List.length_cons]
        by_cases hnil : rest = []
        · rw [hnil, List.length_nil]
          omega
        · obtain ⟨m, p', hm, -, hend⟩ := split h (by simpa [← hpieces] using hnil)
          have hle := ihlinks m (Nat.lt_succ_of_le hm) (hpieces ▸ hend)
          have hsize := deeper_le_size t p'
          have hmul := Nat.mul_le_mul_right (t.size + 1) hm
          omega

end Way

/-! ## Pieces of paths that count -/

/-- The pieces of a path that count. -/
def Path.steps (p : Path) : List (List UInt8) := (Text.splitOn slash p.bytes).filter Way.counts

/-- But for a leading `.`, the components are the root and what the pieces count for. -/
theorem Path.filter_components (p : Path) : p.components.filter (· ≠ .here) =
    rootOf p.isAbsolute ++ innerComponents (Text.splitOn slash p.bytes) := by
  obtain ⟨first, rest, hpieces⟩ := List.exists_cons_of_ne_nil (Text.splitOn_ne_nil slash p.bytes)
  have hroot : (rootOf p.isAbsolute).filter (· ≠ .here) = rootOf p.isAbsolute := by
    rw [rootOf]
    split <;> simp
  have hfirst : (component? true first).toList.filter (· ≠ .here) = innerComponents [first] := by
    simp only [innerComponents_singleton, component?, Bool.false_eq_true, if_true, if_false]
    split_ifs <;> simp
  have hrest : (innerComponents rest).filter (· ≠ .here) = innerComponents rest := by
    rw [List.filter_eq_self]
    exact fun c hc => by simpa using (ne_of_mem_innerComponents hc).2
  rw [components, hpieces, piecesComponents, List.filter_append, List.filter_append, hroot, hfirst,
    hrest, ← innerComponents_append, List.singleton_append]

/-- The pieces that count are the components but for the root and a leading `.`. -/
theorem Path.steps_eq (p : Path) :
    p.steps = ((p.components.filter (· ≠ .here)).filter (· ≠ .root)).map Component.bytes := by
  have hroot : (rootOf p.isAbsolute).filter (· ≠ .root) = [] := by
    rw [rootOf]
    split <;> simp
  have hinner : (innerComponents (Text.splitOn slash p.bytes)).filter (· ≠ .root) =
      innerComponents (Text.splitOn slash p.bytes) := by
    rw [List.filter_eq_self]
    exact fun c hc => by simpa using (ne_of_mem_innerComponents hc).1
  rw [steps, ← map_bytes_innerComponents, filter_components, List.filter_append, hroot, hinner,
    List.nil_append]

namespace World

variable {w : World} {root start p q : Path} {place : Place} {node : Node}

/-- What a path leads to is at the end of the way of its pieces that count. -/
theorem way_of_locate (h : w.locate p = .ok (place, node)) :
    Way w.tree true linkBudget (w.startOf p) p.steps (.taken place node) := by
  obtain ⟨-, hway⟩ := resolve_eq_ok_iff.1 (locate_eq_ok_iff.1 h)
  exact hway.of_sublist List.filter_sublist (by simp [Path.steps])

/-- For a directory the other pieces do not matter. -/
theorem locate_of_way (hp : p.bytes ≠ [])
    (h : Way w.tree true linkBudget (w.startOf p) p.steps (.taken place .directory)) :
    w.locate p = .ok (place, .directory) := by
  refine locate_eq_ok_iff.2 (resolve_eq_ok_iff.2 ⟨hp, h.directory_of_counted ?_⟩)
  simp [Path.steps]

/-- Something stands where a path leads, also if a link at its end is not followed. -/
theorem exists_resolve_of_locate (h : w.locate p = .ok (place, node)) :
    ∃ place' node', w.resolve false p = .ok (.taken place' node') := by
  obtain ⟨hne, hway⟩ := resolve_eq_ok_iff.1 (locate_eq_ok_iff.1 h)
  obtain ⟨place', node', hway⟩ := hway.unfollowed
  exact ⟨place', node', resolve_eq_ok_iff.2 ⟨hne, hway⟩⟩

/-! ## One name further down -/

theorem bytes_childOf_ne_nil (hp : p.bytes ≠ []) {name : List UInt8} (hname : name ≠ []) :
    (childOf p name).bytes ≠ [] := by
  rw [childOf, Path.join]
  split_ifs <;> simp [hp, hname]

/-- A child is where its parent is: below the root of the file system or below the working directory. -/
theorem startOf_childOf (hp : p.bytes ≠ []) {name : List UInt8} (hname : slash ∉ name) :
    w.startOf (childOf p name) = w.startOf p := by
  have hrelative := Path.isAbsolute_of_not_mem hname
  have habs : (childOf p name).isAbsolute = p.isAbsolute := by
    rw [childOf]
    split
    next hcurrent =>
      have hp' : ¬ p.isAbsolute = true := by
        rw [Path.isAbsolute_iff, isCurrent_iff.1 hcurrent]
        simp
      rw [hrelative, Bool.eq_false_iff.2 hp']
    next =>
      rw [Path.join, if_neg (by simp [hrelative])]
      split <;> exact Path.isAbsolute_append hp _
  rw [startOf, startOf, habs]

/-- One more piece is one more step, if it counts. -/
theorem steps_childOf (hp : p.bytes ≠ []) {name : List UInt8} (hname : slash ∉ name) :
    (childOf p name).steps = p.steps ++ [name].filter Way.counts := by
  rw [childOf]
  split
  next hcurrent =>
    have hnone : p.steps = [] := by
      rw [Path.steps_eq, isCurrent_iff.1 hcurrent]
      rfl
    rw [hnone, Path.steps, Text.splitOn_of_not_mem hname, List.nil_append]
  next =>
    have hname' : ((Path.innerComponents [name]).filter (· ≠ .here)).filter (· ≠ .root) =
        Path.innerComponents [name] := by
      rw [List.filter_filter, List.filter_eq_self]
      exact fun c hc => by simpa using Path.ne_of_mem_innerComponents hc
    rw [Path.steps_eq, Path.components_join hp (Path.isAbsolute_of_not_mem hname),
      Text.splitOn_of_not_mem hname, List.filter_append, List.filter_append, hname', List.map_append,
      ← Path.steps_eq, Path.map_bytes_innerComponents]

/-! ## Some names further down -/

theorem startOf_down (hp : p.bytes ≠ []) (names : List Name) :
    w.startOf (down p names) = w.startOf p := by
  induction names generalizing p with
  | nil => rfl
  | cons name rest ih =>
    rw [down_cons, ih (bytes_childOf_ne_nil hp name.proper.1), startOf_childOf hp name.proper.2.2.2]

theorem steps_down (hp : p.bytes ≠ []) (names : List Name) :
    (down p names).steps = p.steps ++ names.map Name.bytes := by
  induction names generalizing p with
  | nil => exact (List.append_nil _).symm
  | cons name rest ih =>
    have hcounts : Way.counts name.bytes = true := Way.counts_iff.2 name.proper.not_stays
    have hstep := steps_childOf hp name.proper.2.2.2
    rw [List.filter_cons_of_pos hcounts, List.filter_nil] at hstep
    rw [down_cons, ih (bytes_childOf_ne_nil hp name.proper.1), hstep, List.append_assoc,
      List.singleton_append, List.map_cons]

/-- **The way some names down** from a path leads through the directory that the path names. -/
theorem exists_way_down (hp : p.bytes ≠ []) {names : List Name} (hne : names ≠ []) {target : Place}
    (h : w.locate (down p names) = .ok (target, node)) :
    ∃ m place, m ≤ linkBudget ∧ w.locate p = .ok (place, .directory) ∧
      Way w.tree true m place (names.map Name.bytes) (.taken target node) := by
  have hway := way_of_locate h
  rw [steps_down hp, startOf_down hp] at hway
  obtain ⟨m, place, hm, hdir, hdown⟩ := hway.split (by simpa using hne)
  exact ⟨m, place, hm, locate_of_way hp hdir, hdown⟩

/-- A way down a name starts at a child of the place. -/
theorem mem_childNames_of_way {t : Tree} {n : Nat} {name : Name} {rest : List (List UInt8)}
    {target : Place} (h : Way t true n place (name.bytes :: rest) (.taken target node)) :
    name ∈ t.childNames place := by
  have hmem : ∀ {node : Node}, t.node? (name :: place) = some node → name ∈ t.childNames place := by
    intro node hnode
    have hkey : name :: place ∈ t.keys := OrderedMap.mem_keys_iff.2 (Option.isSome_of_eq_some hnode)
    exact List.mem_filterMap.2 ⟨name :: place, hkey, if_pos rfl⟩
  generalize hpiece : name.bytes = piece at h
  cases h with
  | stay hstay => exact absurd (hpiece ▸ hstay) name.proper.not_stays
  | up => exact absurd hpiece name.proper.ne_up
  | enter _ hnode =>
    subst hpiece
    exact hmem hnode
  | file _ hnode =>
    subst hpiece
    exact hmem hnode
  | link _ _ hlast => cases hlast
  | follow _ hnode =>
    subst hpiece
    exact hmem hnode

/-- The depth to which a listing goes is enough for each path that leads to something. -/
theorem length_le_depthBound (hp : p.bytes ≠ []) {names : List Name} {target : Place}
    (h : w.locate (down p names) = .ok (target, node)) : names.length ≤ w.depthBound := by
  by_cases hne : names = []
  · simp [hne]
  · obtain ⟨m, place, hm, -, hway⟩ := exists_way_down hp hne h
    have hlen := hway.length_le
    have hsize := Way.deeper_le_size w.tree place
    have hmul := Nat.mul_le_mul_right (w.tree.size + 1) hm
    rw [depthBound, linkBudget] at *
    omega

/-- What lies some names below a path is reached by going down so many times, if its own name is valid
UTF-8. -/
theorem mem_below_of_locate (hp : p.bytes ≠ []) {dirs : List Name} {name : Name}
    (hvalid : Utf8.isValid name.bytes = true) {target : Place}
    (h : w.locate (down p (dirs ++ [name])) = .ok (target, node)) {depth : Nat}
    (hdepth : dirs.length < depth) : down p (dirs ++ [name]) ∈ w.below depth p := by
  induction dirs generalizing p depth with
  | nil =>
    obtain ⟨depth, rfl⟩ : ∃ d, depth = d + 1 := ⟨depth - 1, by omega⟩
    obtain ⟨m, place, -, hdir, hway⟩ := exists_way_down hp (by simp) h
    exact mem_below_succ_iff.2 ⟨place, hdir, name, mem_childNames_of_way hway, .inl ⟨rfl, hvalid⟩⟩
  | cons dir rest ih =>
    obtain ⟨depth, rfl⟩ : ∃ d, depth = d + 1 := ⟨depth - 1, by omega⟩
    obtain ⟨m, place, -, hdir, hway⟩ := exists_way_down hp (by simp) h
    refine mem_below_succ_iff.2 ⟨place, hdir, dir, mem_childNames_of_way hway, .inr ?_⟩
    exact ih (bytes_childOf_ne_nil hp dir.proper.1) h (by simpa using hdepth)

/-- **A listing reaches what lies below its start by some names**, as far as something is there and its own
name is valid UTF-8. -/
theorem mem_below_iff (hp : p.bytes ≠ []) (hq : w.has q = true) : q ∈ w.below w.depthBound p ↔
    ∃ dirs name, q = down p (dirs ++ [name]) ∧ Utf8.isValid name.bytes = true := by
  refine ⟨exists_down_of_mem_below, ?_⟩
  rintro ⟨dirs, name, rfl, hvalid⟩
  cases h : w.locate (down p (dirs ++ [name])) with
  | error e => simp [has, h, Except.isOk, Except.toBool] at hq
  | ok found =>
    have hdepth := length_le_depthBound hp h
    rw [List.length_append, List.length_singleton] at hdepth
    exact mem_below_of_locate hp hvalid h hdepth

/-! ## From the root -/

/-- A piece can be entered on the way to a directory. -/
theorem enter_eq_some {piece : List UInt8} (hp : p.bytes ≠ []) (hpiece : slash ∉ piece)
    (hchild : (childOf p piece).bytes ≠ [])
    (h : Way w.tree true linkBudget (w.startOf p) (p.steps ++ [piece].filter Way.counts)
      (.taken place .directory)) : w.enter p piece = some (childOf p piece) := by
  rw [enter]
  split
  next hdots =>
    obtain ⟨above, hway⟩ := h.exists_directory
    have hdir : w.isDirectory p = true := by rw [isDirectory, locate_of_way hp hway]
    exact if_pos hdir
  next =>
    rw [← steps_childOf hp hpiece, ← startOf_childOf hp hpiece] at h
    obtain ⟨place', node', hresolve⟩ := exists_resolve_of_locate (locate_of_way hchild h)
    rw [hresolve]

/-- All pieces of the way to a directory can be entered. -/
theorem exists_foldlM_enter {pieces : List (List UInt8)} (hextends : Extends p)
    (hpieces : ∀ piece ∈ pieces, slash ∉ piece)
    (h : Way w.tree true linkBudget (w.startOf p) (p.steps ++ pieces.filter Way.counts)
      (.taken place .directory)) :
    ∃ start, pieces.foldlM (fun p piece => w.enter p piece) p = some start ∧ Extends start := by
  induction pieces generalizing p with
  | nil => exact ⟨p, rfl, hextends⟩
  | cons piece rest ih =>
    obtain ⟨hpiece, hrest⟩ := List.forall_mem_cons.1 hpieces
    have hnext := hextends.childOf hpiece
    rw [← List.singleton_append, List.filter_append, ← List.append_assoc] at h
    obtain ⟨above, hway⟩ := h.exists_directory
    rw [List.foldlM_cons, enter_eq_some hextends.bytes_ne_nil hpiece hnext.bytes_ne_nil hway]
    refine ih hnext hrest ?_
    rwa [steps_childOf hextends.bytes_ne_nil hpiece, startOf_childOf hextends.bytes_ne_nil hpiece]

theorem locate_of_isDirectory (h : w.isDirectory p = true) :
    ∃ place, w.locate p = .ok (place, .directory) := by
  rw [isDirectory] at h
  split at h
  next place hplace => exact ⟨place, hplace⟩
  next => cases h

/-- A listing knows its root by the text of it only. -/
theorem scope?_viaText (w : World) (root : Path) : w.scope? root.viaText = w.scope? root := by
  rw [scope?, scope?, Path.viaText_viaText]

/-- The pieces of a relative root are entered from the working directory. -/
theorem scope?_of_relative (hne : root.bytes ≠ []) (h : root.isAbsolute = false) :
    w.scope? root = (Text.splitOn slash root.viaText.bytes).foldlM (fun p piece => w.enter p piece)
      ⟨[dot]⟩ := by
  rw [← Path.isAbsolute_viaText] at h
  have hne' : root.viaText.bytes ≠ [] := fun hempty => hne (viaText_eq_nil_iff.1 hempty)
  obtain ⟨b, rest, hbytes⟩ := List.exists_cons_of_ne_nil hne'
  have hb : ¬ b = slash := by simpa [Path.isAbsolute, hbytes] using h
  rw [scope?, hbytes]
  exact if_neg hb

theorem enter_current : w.enter ⟨[dot]⟩ [dot] = some ⟨[dot]⟩ := by
  have hhome : w.locate ⟨[dot]⟩ = .ok (w.home, .directory) :=
    locate_eq_ok_iff.2 (resolve_eq_ok_iff.2 ⟨by simp, .stay (.inr rfl) (.stop _ _)⟩)
  rw [enter, if_pos (.inl rfl), isDirectory, hhome]
  rfl

/-- The first piece of a root that is not `.` names what is entered first. -/
theorem extends_of_piece {piece : List UInt8} (hpiece : slash ∉ piece) (hempty : piece ≠ [])
    (hdot : piece ≠ [dot]) : Extends ⟨piece⟩ ∧
      Path.components ⟨piece⟩ = Path.innerComponents [piece] := by
  have hcomponents : Path.components ⟨piece⟩ = Path.innerComponents [piece] := by
    rw [Path.components, Path.isAbsolute_of_not_mem hpiece, Text.splitOn_of_not_mem hpiece,
      Path.innerComponents_singleton]
    simp [Path.rootOf, Path.piecesComponents, Path.innerComponents, Path.component?, hempty, hdot]
  refine ⟨⟨hempty, ?_⟩, hcomponents⟩
  rw [isCurrent_iff, hcomponents]
  intro hcurrent
  exact (Path.ne_of_mem_innerComponents (hcurrent ▸ List.mem_singleton_self _)).2 rfl

/-- All pieces of the way from the working directory to a directory can be entered, unless an empty one
comes first of those that are not `.`. -/
theorem exists_foldlM_enter_current {pieces : List (List UInt8)} (hpieces : ∀ piece ∈ pieces, slash ∉ piece)
    (hfirst : pieces.find? (· ≠ [dot]) ≠ some [])
    (h : Way w.tree true linkBudget w.home (pieces.filter Way.counts) (.taken place .directory)) :
    ∃ start, pieces.foldlM (fun p piece => w.enter p piece) ⟨[dot]⟩ = some start ∧
      start.bytes ≠ [] ∧ ahead start = Path.innerComponents pieces := by
  induction pieces with
  | nil => exact ⟨⟨[dot]⟩, rfl, by simp, rfl⟩
  | cons piece rest ih =>
    obtain ⟨hpiece, hrest⟩ := List.forall_mem_cons.1 hpieces
    by_cases hdot : piece = [dot]
    · -- A leading `.` changes nothing.
      subst hdot
      rw [List.foldlM_cons, enter_current]
      exact ih hrest (by simpa using hfirst) h
    · -- The first other piece is a path of its own, behind which the rest is put.
      have hempty : piece ≠ [] := by simpa [hdot] using hfirst
      obtain ⟨hextends, hcomponents⟩ := extends_of_piece hpiece hempty hdot
      have hstartOf : w.startOf ⟨piece⟩ = w.home := by
        rw [startOf, Path.isAbsolute_of_not_mem hpiece]
        rfl
      have hsteps : Path.steps ⟨piece⟩ = [piece].filter Way.counts := by
        rw [Path.steps, Text.splitOn_of_not_mem hpiece]
      rw [← List.singleton_append, List.filter_append, ← hsteps] at h
      obtain ⟨above, hway⟩ := h.exists_directory
      have henter : w.enter ⟨[dot]⟩ piece = some ⟨piece⟩ :=
        enter_eq_some (by simp) hpiece hempty (hsteps ▸ hway)
      obtain ⟨start, hstart, hextends'⟩ := exists_foldlM_enter hextends hrest (hstartOf.symm ▸ h)
      refine ⟨start, ?_, hextends'.bytes_ne_nil, ?_⟩
      · rw [List.foldlM_cons, henter]
        exact hstart
      · rw [ahead_eq_components hextends'.not_current, components_foldlM_enter hextends hrest hstart,
          hcomponents, ← Path.innerComponents_append, List.singleton_append]

/-- **A listing of a directory starts** from its path without a leading `.`, unless an empty piece comes
first of those that are not `.`. -/
theorem exists_scope (hvia : root.viaText = root) (hroot : root.isAbsolute = true ∨
    (Text.splitOn slash root.bytes).find? (· ≠ [dot]) ≠ some []) (h : w.isDirectory root = true) :
    ∃ start, w.scope? root = some start ∧ start.bytes ≠ [] ∧
      ahead start = root.components.filter (· ≠ .here) := by
  obtain ⟨place, hplace⟩ := locate_of_isDirectory h
  have hway := way_of_locate hplace
  rw [Path.filter_components]
  by_cases habs : root.isAbsolute = true
  · obtain ⟨rest, hbytes, hscope⟩ := scope?_eq habs
    rw [hvia] at hbytes
    have hsteps : root.steps = (Text.splitOn slash rest).filter Way.counts := by
      simp [Path.steps, hbytes, Text.splitOn, Way.counts]
    rw [startOf, if_pos habs, hsteps] at hway
    obtain ⟨start, hstart, hextends⟩ := exists_foldlM_enter (p := ⟨[slash]⟩) (extends_of_isAbsolute rfl)
      (fun piece => Text.not_mem_of_mem_splitOn) hway
    rw [← hscope w] at hstart
    refine ⟨start, hstart, hextends.bytes_ne_nil, ?_⟩
    rw [ahead_eq_components hextends.not_current, components_scope habs hstart, hvia,
      Path.components_of_isAbsolute habs, habs]
    rfl
  · have hne : root.bytes ≠ [] := (resolve_eq_ok_iff.1 (locate_eq_ok_iff.1 hplace)).1
    have hrelative : root.isAbsolute = false := Bool.eq_false_iff.2 habs
    rw [startOf, if_neg habs] at hway
    obtain ⟨start, hstart, hne', hahead⟩ := exists_foldlM_enter_current
      (fun piece => Text.not_mem_of_mem_splitOn) (hroot.resolve_left habs) hway
    have hscope := scope?_of_relative (w := w) hne hrelative
    rw [hvia] at hscope
    refine ⟨start, hscope.trans hstart, hne', ?_⟩
    rw [hahead, hrelative]
    rfl

/-- **What a listing reaches**: what lies below its start by some names, as far as something is there and its
own name is valid UTF-8. -/
theorem mem_everythingBelow_iff (hstart : w.scope? root = some start) (hne : start.bytes ≠ [])
    (hq : w.has q = true) : q ∈ w.everythingBelow root ↔
      ∃ dirs name, q = down start (dirs ++ [name]) ∧ Utf8.isValid name.bytes = true := by
  rw [← mem_below_iff hne hq, everythingBelow, hstart]
  exact (sortOn_perm _ _).mem_iff

end World

end RuleAudit
