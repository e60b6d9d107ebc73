import RuleAudit.Files.Tree

/-!
# Changes of a file tree

Two trees compared place by place: which files have been written and what has been removed on the way from the
older one to the newer one.
-/

namespace RuleAudit

/-- A step from one tree to another. -/
inductive Change where
  | written (place : Place) (bytes : List UInt8)
  | removed (place : Place)
  deriving DecidableEq, Repr

namespace Tree

/-- The files of a tree that are not the same in an older one. -/
def writtenSince (old new : Tree) : List Change :=
  new.entries.filterMap fun (place, node) =>
    match node with
    | .file bytes _ => if old.get? place = some node then none else some (.written place bytes)
    | _ => none

/-- The places of an older tree where nothing stands any more. -/
def removedSince (old new : Tree) : List Change :=
  old.entries.filterMap fun (place, _) =>
    if new.contains place then none else some (.removed place)

/-- What leads from one tree to another, but for new directories and links, which only the script of an engine
makes. -/
def changes (old new : Tree) : List Change := removedSince old new ++ writtenSince old new

/-- Only places of the older tree are removed. -/
theorem removedSince_subset (old new : Tree) :
    ∀ c ∈ removedSince old new, ∃ place ∈ old.keys, c = .removed place := by
  intro c h
  obtain ⟨⟨place, node⟩, hmem, hc⟩ := List.mem_filterMap.1 h
  refine ⟨place, List.mem_map.2 ⟨(place, node), hmem, rfl⟩, ?_⟩
  by_cases hn : new.contains place <;> simp_all

end Tree

end RuleAudit
