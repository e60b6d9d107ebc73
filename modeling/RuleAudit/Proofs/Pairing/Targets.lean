import RuleAudit.Pairing.Targets
import RuleAudit.Proofs.Files.Listing
import RuleAudit.Proofs.Ordered.Lookup
import RuleAudit.Run.Roots

/-!
# Targets of a run

The roots of a run are absolute, and everything that is listed below an absolute root is absolute too.
So are all targets that configs own.
-/

namespace RuleAudit

/-- A target is no golden file, and a config only if it is a fixture. -/
theorem Path.mayBeTarget_iff {p : Path} : p.mayBeTarget = true ↔
    ¬p.isGolden = true ∧ (p.isConfigTest = true ∨ ¬p.isConfig = true) := by
  rw [mayBeTarget, Bool.and_eq_true, Bool.or_eq_true, Bool.not_eq_true', Bool.not_eq_true',
    ← Bool.not_eq_true, ← Bool.not_eq_true, and_comm]

namespace World

theorem isAbsolute_normalize_of_has {w : World} {p : Path} (h : w.has p = true) :
    (w.normalize p).isAbsolute = true := by
  rw [has] at h
  rw [normalize]
  cases hloc : w.locate p with
  | error e =>
    rw [hloc] at h
    cases h
  | ok found => exact Place.isAbsolute_path found.1

/-- The roots of a target and a config that both exist. -/
theorem rootsFor_eq_ok {w : World} {target config : Path} {roots : Roots}
    (h : w.rootsFor target (some config) = .ok roots) :
    w.has target = true ∧ w.has config = true ∧
      roots = ⟨w.normalize target, w.normalize config⟩ := by
  rw [rootsFor] at h
  cases htarget : w.has target <;> cases hconfig : w.has config <;>
    simp [htarget, hconfig, bind, Except.bind, throw, throwThe, MonadExceptOf.throw, pure,
      Except.pure] at h
  exact ⟨rfl, rfl, h.symm⟩

/-- The target root of a run is absolute. -/
theorem isAbsolute_rootsFor {w : World} {target config : Path} {roots : Roots}
    (h : w.rootsFor target (some config) = .ok roots) : roots.target.isAbsolute = true := by
  obtain ⟨htarget, -, rfl⟩ := rootsFor_eq_ok h
  exact isAbsolute_normalize_of_has htarget

/-! ## Owned targets -/

theorem isFile_eq_false_of_isDirectory {w : World} {p : Path} (h : w.isDirectory p = true) :
    w.isFile p = false := by
  rw [isDirectory] at h
  rw [isFile]
  split at h
  next hlocate => rw [hlocate]
  · cases h

theorem has_of_isFile {w : World} {p : Path} (h : w.isFile p = true) : w.has p = true := by
  rw [isFile] at h
  split at h
  next place bytes runnable hplace => rw [has, hplace]; rfl
  next => cases h

theorem baseOf_eq_self {w : World} {root : Path} (h : w.isFile root = false) : w.baseOf root = root := by
  rw [baseOf, h]
  rfl

theorem ownedTargets_eq {w : World} {targetRoot : Path} (h : w.isFile targetRoot = false)
    (configRoot : Path) (configs : List Path) :
    w.ownedTargets configRoot configs targetRoot = OrderedMap.ofList (configs.map fun c =>
      (c, targetsAmong (w.baseOf configRoot) targetRoot (w.candidates targetRoot) c)) := by
  simp [ownedTargets, h]

/-- Below a directory a config owns those candidates that name its test. -/
theorem exists_targetsAmong_of_mem {w : World} {configRoot targetRoot : Path} {configs ts : List Path}
    (h : w.isFile targetRoot = false)
    (hts : ts ∈ (w.ownedTargets configRoot configs targetRoot).values) :
    ∃ c ∈ configs,
      ts = targetsAmong (w.baseOf configRoot) targetRoot (w.candidates targetRoot) c := by
  rw [ownedTargets_eq h] at hts
  obtain ⟨e, he, rfl⟩ := OrderedMap.exists_mem_of_mem_values_ofList hts
  obtain ⟨c, hc, rfl⟩ := List.mem_map.1 he
  exact ⟨c, hc, rfl⟩

/-- A single target file is all that a config may own; otherwise the config owns targets below a
directory. -/
theorem ownedTargets_cases {w : World} {configRoot targetRoot : Path} {configs ts : List Path}
    (hts : ts ∈ (w.ownedTargets configRoot configs targetRoot).values) :
    (∀ t ∈ ts, t = targetRoot) ∨ (w.isFile targetRoot = false ∧ ∃ c ∈ configs,
      ts = targetsAmong (w.baseOf configRoot) targetRoot (w.candidates targetRoot) c) := by
  cases hfile : w.isFile targetRoot with
  | false => exact .inr ⟨rfl, exists_targetsAmong_of_mem hfile hts⟩
  | true =>
    left
    intro t ht
    simp only [ownedTargets, hfile, Bool.and_true, if_true] at hts
    split at hts
    · obtain ⟨e, he, rfl⟩ := OrderedMap.exists_mem_of_mem_values_ofList hts
      obtain rfl := List.mem_singleton.1 he
      exact List.mem_singleton.1 ht
    · obtain ⟨e, he, rfl⟩ := OrderedMap.exists_mem_of_mem_values_ofList hts
      obtain ⟨c, -, rfl⟩ := List.mem_map.1 he
      split at ht
      · exact List.mem_singleton.1 ht
      · cases ht

theorem mem_targetsAmong_iff {w : World} {configBase targetRoot c t : Path} :
    t ∈ targetsAmong configBase targetRoot (w.candidates targetRoot) c ↔
      t ∈ w.filesBelow targetRoot ∧ t.mayBeTarget = true ∧
        Path.samePlace targetRoot t configBase c = true := by
  simp only [targetsAmong, candidates, filesBelow, List.mem_filter, Bool.and_eq_true]
  tauto

/-- **All targets that configs own** below an absolute root are absolute. -/
theorem isAbsolute_of_mem_ownedTargets {w : World} {configRoot targetRoot : Path}
    {configs : List Path} (h : targetRoot.isAbsolute = true) {ts : List Path}
    (hts : ts ∈ (w.ownedTargets configRoot configs targetRoot).values) :
    ∀ t ∈ ts, t.isAbsolute = true := by
  intro t ht
  rcases ownedTargets_cases hts with hroot | ⟨-, c, -, rfl⟩
  · exact hroot t ht ▸ h
  · exact isAbsolute_of_mem_everythingBelow h (List.mem_filter.1 (mem_targetsAmong_iff.1 ht).1).1

end World

end RuleAudit
