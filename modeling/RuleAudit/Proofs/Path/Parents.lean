import RuleAudit.Proofs.Path.Components

/-!
# Parents of built paths

What is built by joining a name to the parent of a path has that parent again, spelled the same way: the text
of a parent ends in a piece that counts, so that cutting the new name off leaves all of it. Replacing a file
name therefore moves nothing, and of two names put in one after the other only the second one is left.
-/

namespace RuleAudit.Path

theorem parent?_name {name : List UInt8} (h : ProperName name) : parent? ⟨name⟩ = some ⟨[]⟩ := by
  have hlast : dropUncounted [name] = [name] := dropUncounted_cons h []
  rw [parent?, Text.splitOn_of_not_mem h.2.2.2, List.reverse_singleton, hlast]
  simp [dropUncounted, isAbsolute_of_properName h]

theorem parent?_root_name {name : List UInt8} (h : ProperName name) :
    parent? ⟨slash :: name⟩ = some ⟨[slash]⟩ := by
  have hlast : dropUncounted [name, []] = [name, []] := dropUncounted_cons h [[]]
  have hpieces : Text.splitOn slash (slash :: name) = [[], name] := by
    rw [Text.splitOn, if_pos rfl, Text.splitOn_of_not_mem h.2.2.2]
  rw [parent?, hpieces, List.reverse_cons, List.reverse_singleton, List.singleton_append, hlast]
  simp [dropUncounted, counts, component?, isAbsolute]

/-- A path whose last piece counts is the parent of what lies directly below it. -/
theorem parent?_join_of_counts {q : Path} {piece : List UInt8} {before : List (List UInt8)}
    (hq : (Text.splitOn slash q.bytes).reverse = piece :: before)
    (hcounts : counts before.isEmpty piece = true) {name : List UInt8} (h : ProperName name) :
    (q.join ⟨name⟩).parent? = some q := by
  have hpiece : piece ≠ [] := by
    rintro rfl
    simp [counts, component?] at hcounts
  have hsplit : Text.splitOn slash q.bytes = before.reverse ++ [piece] := by
    simpa using congrArg List.reverse hq
  have hne : q.bytes ≠ [] := by
    intro hnil
    rw [hnil] at hsplit
    have hone : [] ++ [[]] = before.reverse ++ [piece] := hsplit
    have hempty := (List.append_inj' hone rfl).2
    exact hpiece (List.cons.inj hempty).1.symm
  -- The text ends as its last piece does, and not in a slash.
  have hend : q.bytes.getLast? ≠ some slash := by
    intro hlast
    obtain ⟨init, hinit⟩ := List.getLast?_eq_some_iff.1 hlast
    rw [hinit, Text.splitOn_append_cons] at hsplit
    have hempty := (List.append_inj' hsplit rfl).2
    exact hpiece (List.cons.inj hempty).1.symm
  have hjoin : q.join ⟨name⟩ = ⟨q.bytes ++ slash :: name⟩ := by
    simp [join, isAbsolute_of_properName h, hne, hend]
  have hkept : dropUncounted (Text.splitOn slash q.bytes).reverse = piece :: before := by
    rw [hq, dropUncounted, if_pos hcounts]
  rw [hjoin, parent?, Text.splitOn_append_cons, Text.splitOn_of_not_mem h.2.2.2,
    List.reverse_append, List.reverse_singleton, List.singleton_append, dropUncounted_cons h]
  simp only [hkept]
  rw [← hq, List.reverse_reverse, Text.intercalate_splitOn]

/-- **What lies directly below a parent** has this parent, spelled the same way. -/
theorem parent?_join_name {p q : Path} (hq : p.parent? = some q) {name : List UInt8} (h : ProperName name) :
    (q.join ⟨name⟩).parent? = some q := by
  rw [parent?] at hq
  split at hq
  next => cases hq
  next last before hpieces =>
    have hbefore : before ⊆ Text.splitOn slash p.bytes := by
      intro piece hpiece
      have hmem : piece ∈ dropUncounted (Text.splitOn slash p.bytes).reverse :=
        hpieces ▸ List.mem_cons_of_mem last hpiece
      exact List.mem_reverse.1 ((dropUncounted_suffix _).subset hmem)
    split at hq
    next =>
      obtain rfl := Option.some.inj hq
      split
      next =>
        have hjoin : join ⟨[slash]⟩ ⟨name⟩ = ⟨slash :: name⟩ := by
          simp [join, isAbsolute_of_properName h]
        rw [hjoin]
        exact parent?_root_name h
      next =>
        rw [join_of_bytes_eq_nil rfl h]
        exact parent?_name h
    next hkept =>
      obtain rfl := Option.some.inj hq
      obtain ⟨piece, earlier, hcons⟩ := List.exists_cons_of_ne_nil hkept
      have hslash : ∀ kept ∈ (dropUncounted before).reverse, slash ∉ kept := by
        intro kept hmem
        have hsubset := (dropUncounted_suffix before).subset (List.mem_reverse.1 hmem)
        exact Text.not_mem_of_mem_splitOn (hbefore hsubset)
      refine parent?_join_of_counts ?_ (counts_of_dropUncounted hcons) h
      rw [Text.splitOn_intercalate (by simpa using hkept) hslash, List.reverse_reverse, hcons]

theorem withFileName_eq_join {p q : Path} {old : List UInt8} (h : p.fileName? = some old)
    (hq : p.parent? = some q) (new : List UInt8) : p.withFileName new = q.join ⟨new⟩ := by
  rw [withFileName, h, hq]
  rfl

theorem fileName?_withFileName {p : Path} {old new : List UInt8} (h : p.fileName? = some old)
    (hnew : ProperName new) : (p.withFileName new).fileName? = some new := by
  obtain ⟨above, habove⟩ := fileName?_eq_some_iff.1 h
  exact fileName?_eq_some_iff.2 ⟨above, components_withFileName habove hnew⟩

/-- **Another file name** leaves the parent as it is. -/
theorem parent?_withFileName {p : Path} {old new : List UInt8} (h : p.fileName? = some old)
    (hnew : ProperName new) : (p.withFileName new).parent? = p.parent? := by
  obtain ⟨above, habove⟩ := fileName?_eq_some_iff.1 h
  obtain ⟨q, hq, -⟩ := exists_parent habove (by simp)
  rw [withFileName_eq_join h hq, parent?_join_name hq hnew, hq]

/-- Of two file names put in one after the other the second one stays. -/
theorem withFileName_withFileName {p : Path} {old new : List UInt8} (h : p.fileName? = some old)
    (hnew : ProperName new) (newer : List UInt8) :
    (p.withFileName new).withFileName newer = p.withFileName newer := by
  obtain ⟨above, habove⟩ := fileName?_eq_some_iff.1 h
  obtain ⟨q, hq, -⟩ := exists_parent habove (by simp)
  have hparent : (p.withFileName new).parent? = some q := (parent?_withFileName h hnew).trans hq
  rw [withFileName_eq_join (fileName?_withFileName h hnew) hparent, withFileName_eq_join h hq]

end RuleAudit.Path
