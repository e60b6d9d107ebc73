import Mathlib.Data.List.Induction
import RuleAudit.Fixing.Verification
import RuleAudit.Proofs.Files.Growth
import RuleAudit.Proofs.Path.Spelling

/-!
# Copies for fixing

Each case gets a copy of its target at a place where nothing stood before, so nothing that was there is
ever handed to an engine for fixing, under whatever path it may be found.
-/

namespace RuleAudit

namespace World

/-- In the later world a copy of the target stands where nothing stood in the earlier one. -/
def FreshCopy (w w' : World) (target copy : Path) : Prop :=
  ∃ place bytes runnable, w.resolve false copy = .ok (.free place) ∧ w'.read target = .ok bytes ∧
    w'.locate copy = .ok (place, .file bytes runnable)

/-- A fresh copy stays one between an even earlier world and an even later one. -/
theorem FreshCopy.grow {w₀ w w' w'' : World} {target copy : Path} (h : w.FreshCopy w' target copy)
    (hbefore : w₀.Grows w) (hafter : w'.Grows w'') : w₀.FreshCopy w'' target copy := by
  obtain ⟨place, bytes, runnable, hfree, htarget, hcopy⟩ := h
  exact ⟨place, bytes, runnable, hbefore.free hfree, hafter.read htarget, hafter.locate hcopy⟩

/-- **A fresh copy is no file that was there**, under whatever path it may be found. -/
theorem FreshCopy.locate_ne {w w' : World} {target copy : Path} (h : w.FreshCopy w' target copy)
    (hgrows : w.Grows w') {p : Path} (hp : w.isFile p = true) : w'.locate p ≠ w'.locate copy := by
  obtain ⟨place, bytes, runnable, hfree, -, hcopy⟩ := h
  intro hsame
  rw [isFile] at hp
  split at hp
  next origin bytes' runnable' hloc =>
    rw [hgrows.locate hloc, hcopy] at hsame
    have hnode := node?_of_locate hloc
    obtain ⟨rfl, -⟩ := Prod.ext_iff.1 (Except.ok.inj hsame)
    rw [node?_of_free hfree] at hnode
    cases hnode
  next => cases hp

theorem freshPath_free {w : World} {ending : Text} {copy : Path} (h : w.freshPath ending = .ok copy) :
    ∃ place, w.resolve false copy = .ok (.free place) := by
  rw [freshPath] at h
  split at h
  next found =>
    obtain rfl := Except.ok.inj h
    have hfree := List.find?_some found
    rw [isFree] at hfree
    split at hfree
    next place hplace => exact ⟨place, hplace⟩
    next => cases hfree
  next => split at h <;> cases h

/-- A copy is made under a fresh path of what there is to copy. -/
theorem copyToScratch_of_free {w : World} {target copy : Path} {place : Place}
    (hpath : w.freshPath (copyEnding target) = .ok copy)
    (hfree : w.resolve false copy = .ok (.free place)) :
    w.copyToScratch target =
      match w.contents target with
      | .ok (bytes, runnable) => .ok (copy, w.put place (.file bytes runnable))
      | .error cause => .error (.file target cause) := by
  rw [copyToScratch]
  simp only [hpath, copy_eq_of_free hfree]
  cases w.contents target <;> rfl

/-- **One copy** is a new file. -/
theorem exists_put_of_copyToScratch {w w' : World} {target copy : Path}
    (h : w.copyToScratch target = .ok (copy, w')) : ∃ place bytes runnable,
      w.resolve false copy = .ok (.free place) ∧ w.contents target = .ok (bytes, runnable) ∧
        w' = w.put place (.file bytes runnable) := by
  cases hpath : w.freshPath (copyEnding target) with
  | error cause => simp [copyToScratch, hpath] at h
  | ok path =>
    obtain ⟨place, hfree⟩ := freshPath_free hpath
    rw [copyToScratch_of_free hpath hfree] at h
    cases hcontents : w.contents target with
    | error cause => simp [hcontents] at h
    | ok c =>
      simp only [hcontents, Except.ok.injEq, Prod.mk.injEq] at h
      obtain ⟨rfl, rfl⟩ := h
      exact ⟨place, c.1, c.2, hfree, rfl, rfl⟩

theorem copyToScratch_spec {w w' : World} {target copy : Path}
    (h : w.copyToScratch target = .ok (copy, w')) : w.Grows w' ∧ w.FreshCopy w' target copy := by
  obtain ⟨place, bytes, runnable, hfree, hcontents, rfl⟩ := exists_put_of_copyToScratch h
  obtain ⟨hgrows, hcopy⟩ := resolve_put_of_free hfree bytes runnable
  exact ⟨hgrows, place, bytes, runnable, hfree, hgrows.read (read_of_contents hcontents),
    locate_of_resolve hcopy (by simp)⟩

/-- What making copies comes to: the first one cannot be made, or it is made and others follow. -/
theorem copyCases_cons_cases {case : GoldenCase} {rest : List GoldenCase} {w w' : World}
    {copies : List CopiedCase} {failure : Option RunError}
    (h : w.copyCases (case :: rest) = (copies, failure, w')) :
    (∃ e, w.copyToScratch case.target = .error e ∧ copies = [] ∧ failure = some e ∧ w' = w) ∨
      ∃ copy next more, w.copyToScratch case.target = .ok (copy, next) ∧
        next.copyCases rest = (more, failure, w') ∧ copies = ⟨case, copy⟩ :: more := by
  rw [copyCases] at h
  cases hone : w.copyToScratch case.target with
  | error e =>
    simp only [hone] at h
    cases h
    exact .inl ⟨e, rfl, rfl, rfl, rfl⟩
  | ok made =>
    obtain ⟨copy, next⟩ := made
    simp only [hone] at h
    cases h
    exact .inr ⟨copy, next, _, rfl, rfl, rfl⟩

/-- **The copies of some cases**: each is fresh, they come in the order of the cases, and there is one for
every case unless some copy could not be made. -/
theorem copyCases_spec {cases : List GoldenCase} {w w' : World} {copies : List CopiedCase}
    {failure : Option RunError} (h : w.copyCases cases = (copies, failure, w')) :
    w.Grows w' ∧ (∀ cc ∈ copies, w.FreshCopy w' cc.case.target cc.copy) ∧
      copies.map CopiedCase.case <+: cases ∧
      (failure = none → copies.map CopiedCase.case = cases) := by
  induction cases generalizing w copies with
  | nil =>
    cases h
    exact ⟨.refl _, by simp, List.prefix_rfl, fun _ => rfl⟩
  | cons case rest ih =>
    obtain ⟨e, -, rfl, rfl, rfl⟩ | ⟨copy, next, more, hone, hmore, rfl⟩ := copyCases_cons_cases h
    · exact ⟨.refl _, by simp, List.nil_prefix, fun hnone => by cases hnone⟩
    · obtain ⟨hgrows, hfresh⟩ := copyToScratch_spec hone
      obtain ⟨hlater, hothers, hprefix, hall⟩ := ih hmore
      refine ⟨hgrows.trans hlater, ?_, (List.prefix_cons_inj case).2 hprefix, fun hnone => ?_⟩
      · refine List.forall_mem_cons.2 ⟨hfresh.grow (.refl w) hlater, fun cc hcc => ?_⟩
        exact (hothers cc hcc).grow hgrows (.refl w')
      · rw [List.map_cons, hall hnone]

/-- **Copies stand at places of their own.** -/
theorem copyCases_apart {cases : List GoldenCase} {w w' : World} {copies : List CopiedCase}
    {failure : Option RunError} (h : w.copyCases cases = (copies, failure, w')) :
    copies.Pairwise fun a b => ∀ place, w.resolve false a.copy = .ok (.free place) →
      w.resolve false b.copy ≠ .ok (.free place) := by
  induction cases generalizing w copies with
  | nil =>
    cases h
    exact .nil
  | cons case rest ih =>
    obtain ⟨e, -, rfl, rfl, rfl⟩ | ⟨copy, next, more, hone, hmore, rfl⟩ := copyCases_cons_cases h
    · exact .nil
    · obtain ⟨hgrows, place, bytes, runnable, hfree, -, hcopy⟩ := copyToScratch_spec hone
      obtain ⟨-, hothers, -, -⟩ := copyCases_spec hmore
      refine List.pairwise_cons.2 ⟨?_, ?_⟩
      · -- The later copy is made where nothing stands, and there the first one stands already.
        intro cc hcc place' hplace' hshared
        obtain ⟨later, -, -, hlater, -, -⟩ := hothers cc hcc
        rw [hfree] at hplace'
        rw [hgrows.free hlater, ← hplace'] at hshared
        rw [Spot.free.inj (Except.ok.inj hshared)] at hlater
        cases (node?_of_free hlater).symm.trans (node?_of_locate hcopy)
      · refine (ih hmore).imp_of_mem ?_
        intro a b ha hb hab place' hplace' hshared
        obtain ⟨placeA, -, -, hfreeA, -, -⟩ := hothers a ha
        obtain ⟨placeB, -, -, hfreeB, -, -⟩ := hothers b hb
        rw [hgrows.free hfreeA] at hplace'
        rw [hgrows.free hfreeB, ← hplace'] at hshared
        exact hab placeA hfreeA (hfreeB.trans hshared)

/-- What keeps a copy from being made is a file. -/
theorem file_of_copyToScratch {w : World} {target : Path} {e : RunError}
    (h : w.copyToScratch target = .error e) : ∃ p cause, e = .file p cause := by
  rw [copyToScratch] at h
  split at h
  next => exact ⟨_, _, (Except.error.inj h).symm⟩
  next =>
    split at h
    next => cases h
    next => exact ⟨_, _, (Except.error.inj h).symm⟩

theorem file_of_copyCases {cases : List GoldenCase} {w : World} {e : RunError}
    (h : (w.copyCases cases).2.1 = some e) : ∃ p cause, e = .file p cause := by
  induction cases generalizing w with
  | nil => cases h
  | cons case rest ih =>
    obtain ⟨e', hone, -, hfailure, -⟩ | ⟨copy, next, more, -, hmore, -⟩ :=
      copyCases_cons_cases (show w.copyCases (case :: rest) = (_, _, _) from rfl)
    · obtain rfl := Option.some.inj (h.symm.trans hfailure)
      exact file_of_copyToScratch hone
    · exact ih ((congrArg (·.2.1) hmore).trans h)

end World

/-! ## Copies by config -/

/-- The configs with copies are those of the cases. -/
theorem exists_of_mem_keys_copiesByConfig {copies : List CopiedCase} {config : Path}
    (h : config ∈ (copiesByConfig copies).keys) : ∃ cc ∈ copies, cc.case.config = config := by
  induction copies using List.reverseRecOn with
  | nil => simp [copiesByConfig, OrderedMap.keys, OrderedMap.empty] at h
  | append_singleton copies cc ih =>
    rw [copiesByConfig, List.foldl_append, List.foldl_cons, List.foldl_nil, ← copiesByConfig] at h
    obtain ⟨e, he, rfl⟩ := List.mem_map.1 h
    rcases OrderedMap.key_of_mem_place he with hkey | ⟨e', he', hkey⟩
    · exact ⟨cc, by simp, hkey.symm⟩
    · obtain ⟨cc', hcc', hconfig⟩ := ih (hkey ▸ List.mem_map_of_mem he')
      exact ⟨cc', List.mem_append_left _ hcc', hconfig⟩

/-- **The copies of a config** are those of its cases, in their order. -/
theorem get?_copiesByConfig (copies : List CopiedCase) (config : Path) :
    ((copiesByConfig copies).get? config).getD [] =
      (copies.filter fun cc => config.same cc.case.config).map CopiedCase.copy := by
  induction copies using List.reverseRecOn with
  | nil => simp [copiesByConfig]
  | append_singleton copies cc ih =>
    rw [copiesByConfig, List.foldl_append, List.foldl_cons, List.foldl_nil, ← copiesByConfig,
      OrderedMap.get?_alter, List.filter_append, List.map_append, ← ih]
    by_cases hsame : config.same cc.case.config = true
    · have hkey : compare config cc.case.config = .eq := Path.compare_eq_iff.2 hsame
      simp [hkey, hsame, OrderedMap.get?_congr hkey]
    · have hkey : compare config cc.case.config ≠ .eq := fun h => hsame (Path.compare_eq_iff.1 h)
      simp [hkey, hsame]

/-- **The invocation for a config** is about the copies of its cases, in their order. -/
theorem targets_of_mem_fixTasks {copies : List CopiedCase} {options : Options} {i : Invocation}
    (h : i ∈ fixTasks copies options) :
    i.targets = (copies.filter fun cc => i.config.same cc.case.config).map CopiedCase.copy := by
  obtain ⟨⟨config, targets⟩, he, rfl⟩ := List.mem_map.1 h
  rw [← get?_copiesByConfig, OrderedMap.get?_of_mem he, Option.getD_some]

/-- **What the engine is asked about the copies**: to fix, for the config of some case, copies of the
cases of that config. -/
theorem mem_fixTasks {copies : List CopiedCase} {options : Options} {i : Invocation}
    (h : i ∈ fixTasks copies options) :
    i.options = options.fixing ∧ (∃ cc ∈ copies, cc.case.config = i.config) ∧
      ∀ p ∈ i.targets, ∃ cc ∈ copies, cc.copy = p ∧ i.config.same cc.case.config = true := by
  have htargets := targets_of_mem_fixTasks h
  obtain ⟨⟨config, targets⟩, he, rfl⟩ := List.mem_map.1 h
  refine ⟨rfl, exists_of_mem_keys_copiesByConfig (List.mem_map_of_mem he), ?_⟩
  intro p hp
  rw [htargets] at hp
  obtain ⟨cc, hcc, rfl⟩ := List.mem_map.1 hp
  obtain ⟨hcc, hsame⟩ := List.mem_filter.1 hcc
  exact ⟨cc, hcc, rfl, hsame⟩

/-- Every copy is handed to the engine, with the config of its case. -/
theorem exists_mem_fixTasks {copies : List CopiedCase} (options : Options) {cc : CopiedCase}
    (h : cc ∈ copies) :
    ∃ i ∈ fixTasks copies options, i.config.same cc.case.config = true ∧ cc.copy ∈ i.targets := by
  have hcopies : cc.copy ∈ ((copiesByConfig copies).get? cc.case.config).getD [] := by
    rw [get?_copiesByConfig]
    exact List.mem_map_of_mem (List.mem_filter.2 ⟨h, Path.same_self _⟩)
  cases hget : (copiesByConfig copies).get? cc.case.config with
  | none => simp [hget] at hcopies
  | some targets =>
    rw [hget, Option.getD_some] at hcopies
    obtain ⟨config, hkey, he⟩ := OrderedMap.get?_eq_some_iff.1 hget
    refine ⟨⟨config, targets, options.fixing⟩, List.mem_map_of_mem he, ?_, hcopies⟩
    exact Path.compare_eq_iff.1 (Std.OrientedCmp.eq_symm hkey)

end RuleAudit
