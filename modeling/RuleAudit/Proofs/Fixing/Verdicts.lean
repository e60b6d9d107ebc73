import Mathlib.Data.List.Pairwise
import RuleAudit.Proofs.Engine.Isolation
import RuleAudit.Proofs.Fixing.Comparing
import RuleAudit.Proofs.Run.Course

/-!
# Verdicts on fixes

The cases are regrouped by config for the engine and read back in their own order. With an engine that
changes nothing but its targets, each verdict is about what the invocation for its own config left at its
own copy, in whatever order the invocations are made.
-/

namespace RuleAudit

/-- The files right after the invocation for a config, if the invocations are made in this order. -/
def Engine.leftFor (engine : Engine) (config : Path) : List Invocation → World → World
  | [], w => w
  | i :: rest, w =>
    if i.config.same config then (engine i w).2 else engine.leftFor config rest (engine i w).2

theorem Engine.leftFor_append (engine : Engine) {config : Path} {before : List Invocation}
    (h : ∀ j ∈ before, ¬ j.config.same config) {i : Invocation} (hi : i.config.same config)
    (after : List Invocation) (w : World) :
    engine.leftFor config (before ++ i :: after) w = (engine.exchanges (before ++ [i]) w).2 := by
  induction before generalizing w with
  | nil => simp [leftFor, exchanges, hi]
  | cons j before ih =>
    obtain ⟨hj, hrest⟩ := List.forall_mem_cons.1 h
    simp only [List.cons_append, leftFor, hj, exchanges]
    exact ih hrest _

namespace World

/-- The order in which the invocations of a second phase are made. -/
def fixOrder (w : World) (schedule : Schedule) (options : Options) (cases : List GoldenCase) :
    List Invocation :=
  schedule.arrange (fixTasks (w.copyCases cases).1 options)

section Order

variable (w : World) (engine : Engine) (schedule : Schedule) (options : Options)
  (cases : List GoldenCase)

theorem copies_fixing : (w.fixing engine schedule options cases).copies = (w.copyCases cases).1 := rfl

theorem map_invocation_fixing : (w.fixing engine schedule options cases).exchanges.map
    Exchange.invocation = w.fixOrder schedule options cases :=
  engine.map_invocation_exchanges _ _

theorem distinctConfigs_fixOrder : DistinctConfigs (w.fixOrder schedule options cases) :=
  (distinctConfigs_fixTasks _ _).perm (schedule.arrange_perm _).symm

theorem mem_fixOrder {i : Invocation} :
    i ∈ w.fixOrder schedule options cases ↔ i ∈ fixTasks (w.copyCases cases).1 options :=
  (schedule.arrange_perm _).mem_iff

end Order

variable {w : World} {engine : Engine} {schedule : Schedule} {options : Options}
  {cases : List GoldenCase}

/-- Copies at one place are one copy. -/
theorem copy_eq_of_place {cc cc' : CopiedCase} (h : cc ∈ (w.copyCases cases).1)
    (h' : cc' ∈ (w.copyCases cases).1) {place : Place}
    (hplace : w.resolve false cc.copy = .ok (.free place))
    (hplace' : w.resolve false cc'.copy = .ok (.free place)) : cc = cc' := by
  by_contra hne
  have hapart := copyCases_apart (show w.copyCases cases = (_, _, _) from rfl)
  have hsymm : Std.Symm fun a b : CopiedCase => ∀ place,
      w.resolve false a.copy = .ok (.free place) → w.resolve false b.copy ≠ .ok (.free place) :=
    ⟨fun a b hab place hb ha => hab place ha hb⟩
  exact hapart.forall h h' hne place hplace hplace'

/-- **The invocations of a second phase** have their targets at places of their own: two that share a place
have a copy in common, so they are for one config. -/
theorem prepared_fixOrder (w : World) (schedule : Schedule) (options : Options)
    (cases : List GoldenCase) :
    Prepared w (w.copyCases cases).2.2 (w.fixOrder schedule options cases) := by
  obtain ⟨hgrows, hfresh, -, -⟩ := copyCases_spec (show w.copyCases cases = (_, _, _) from rfl)
  have htargets : ∀ i ∈ w.fixOrder schedule options cases, ∀ t ∈ i.targets,
      ∃ cc ∈ (w.copyCases cases).1, cc.copy = t ∧ i.config.same cc.case.config = true :=
    fun i hi => (mem_fixTasks ((w.mem_fixOrder schedule options cases).1 hi)).2.2
  refine ⟨hgrows.keeps, ?_, ?_⟩
  · intro i hi t ht
    obtain ⟨cc, hcc, rfl, -⟩ := htargets i hi t ht
    obtain ⟨place, bytes, runnable, hfree, -, hcopy⟩ := hfresh cc hcc
    exact ⟨place, bytes, runnable, hfree, node?_of_locate hcopy⟩
  · refine (w.distinctConfigs_fixOrder schedule options cases).imp_of_mem ?_
    intro i j hi hj hij place hplace hplace'
    obtain ⟨t, ht, hfree⟩ := hplace
    obtain ⟨t', ht', hfree'⟩ := hplace'
    obtain ⟨cc, hcc, rfl, hsame⟩ := htargets i hi t ht
    obtain ⟨cc', hcc', rfl, hsame'⟩ := htargets j hj t' ht'
    obtain rfl := copy_eq_of_place hcc hcc' hfree hfree'
    refine hij (Path.compare_eq_iff.2 ?_)
    rw [Path.same_comm] at hsame'
    exact Path.same_trans hsame hsame'

/-- **What the invocation for a config leaves at a copy** of one of its cases stands there when all
invocations have been made. -/
theorem left_at_copy (hengine : engine.ChangesOnlyTargets) (schedule : Schedule) (options : Options)
    {cc : CopiedCase} (hcc : cc ∈ (w.copyCases cases).1) {place : Place}
    (hplace : w.resolve false cc.copy = .ok (.free place)) :
    w.Keeps (engine.leftFor cc.case.config (w.fixOrder schedule options cases)
        (w.copyCases cases).2.2) ∧
      (w.fixing engine schedule options cases).world.tree.node? place =
        (engine.leftFor cc.case.config (w.fixOrder schedule options cases)
          (w.copyCases cases).2.2).tree.node? place := by
  obtain ⟨i, hi, hsame, hcopy⟩ := exists_mem_fixTasks options hcc
  -- The schedule may put any invocations before and after the one for the config, but none for the same
  -- config, so the files that it leaves are those of `leftFor`.
  obtain ⟨before, after, horder⟩ := List.append_of_mem
    ((w.mem_fixOrder schedule options cases).2 hi)
  have hprepared := w.prepared_fixOrder schedule options cases
  have hdistinct := w.distinctConfigs_fixOrder schedule options cases
  have hbefore : ∀ j ∈ before, ¬ j.config.same cc.case.config := by
    intro j hj hjsame
    rw [horder] at hdistinct
    refine (List.pairwise_append.1 hdistinct).2.2 j hj i List.mem_cons_self (Path.compare_eq_iff.2 ?_)
    rw [Path.same_comm] at hsame
    exact Path.same_trans hjsame hsame
  have hworld : (w.fixing engine schedule options cases).world =
      (engine.exchanges (w.fixOrder schedule options cases) (w.copyCases cases).2.2).2 := rfl
  rw [hworld, horder, engine.leftFor_append hbefore hsame]
  rw [horder] at hprepared
  refine ⟨?_, hprepared.left hengine ⟨cc.copy, hcopy, hplace⟩⟩
  have hsplit : before ++ i :: after = (before ++ [i]) ++ after := by simp
  rw [hsplit] at hprepared
  exact (hprepared.run hengine).1.keeps

/-- Every copy led to a place of its own where nothing stood at first. -/
theorem exists_place_of_copy {cc : CopiedCase} (hcc : cc ∈ (w.copyCases cases).1) :
    ∃ place, w.resolve false cc.copy = .ok (.free place) := by
  obtain ⟨-, hfresh, -, -⟩ := copyCases_spec (show w.copyCases cases = (_, _, _) from rfl)
  obtain ⟨place, -, -, hfree, -, -⟩ := hfresh cc hcc
  exact ⟨place, hfree⟩

/-- When all invocations have been made, everything that stood at first still stands. -/
theorem keeps_fixing (hengine : engine.ChangesOnlyTargets) :
    w.Keeps (w.fixing engine schedule options cases).world := by
  have hprepared := w.prepared_fixOrder schedule options cases
  rw [← List.append_nil (w.fixOrder schedule options cases)] at hprepared
  exact (hprepared.run hengine).1.keeps

/-- **At its turn** a copy is as the invocation for the config of its case left it, and everything that
stood at first still stands. -/
theorem turn_spec (hengine : engine.ChangesOnlyTargets) {turn : World × CopiedCase}
    (h : turn ∈ (w.fixing engine schedule options cases).world.turns (w.copyCases cases).1) :
    w.Keeps turn.1 ∧ ∃ spot, turn.1.resolve false turn.2.copy = .ok spot ∧
      (engine.leftFor turn.2.case.config (w.fixOrder schedule options cases)
        (w.copyCases cases).2.2).resolve false turn.2.copy = .ok spot := by
  obtain ⟨w', cc⟩ := turn
  obtain ⟨earlier, later, hcopies, rfl⟩ := exists_of_mem_turns h
  have hapart := copyCases_apart (show w.copyCases cases = (_, _, _) from rfl)
  have hcc : cc ∈ (w.copyCases cases).1 := by
    rw [hcopies]
    simp
  obtain ⟨place, hplace⟩ := exists_place_of_copy hcc
  have hfree : ∀ cc' ∈ earlier, ∃ place, w.resolve false cc'.copy = .ok (.free place) := by
    intro cc' hcc'
    have hmem : cc' ∈ (w.copyCases cases).1 := by
      rw [hcopies]
      exact List.mem_append_left _ hcc'
    exact exists_place_of_copy hmem
  -- The copies that have been dropped before this turn led to other places.
  have hearlier : ∀ cc' ∈ earlier, w.resolve false cc'.copy ≠ .ok (.free place) := by
    intro cc' hcc' hshared
    rw [hcopies] at hapart
    exact (List.pairwise_append.1 hapart).2.2 cc' hcc' cc List.mem_cons_self place hshared hplace
  obtain ⟨hkeeps, hunchanged⟩ := dropCopies_spec (keeps_fixing hengine) hfree
  obtain ⟨hleft, hstands⟩ := left_at_copy hengine schedule options hcc hplace
  refine ⟨hkeeps, _, hkeeps.resolve_free hplace, ?_⟩
  rw [hleft.resolve_free hplace, Tree.spotAt_congr ((hunchanged place hearlier).trans hstands)]

end World

/-! ## What is asked -/

namespace World

variable {w : World} {engine : Engine} {schedule : Schedule} {options : Options}
  {cases : List GoldenCase}

/-- The config of every case is asked about, if all copies could be made. -/
theorem exists_exchange_of_case (hmade : (w.copyCases cases).2.1 = none) {case : GoldenCase}
    (h : case ∈ cases) : ∃ x ∈ (w.fixing engine schedule options cases).exchanges,
      x.config.same case.config = true := by
  obtain ⟨-, -, -, hall⟩ := copyCases_spec (show w.copyCases cases = (_, _, _) from rfl)
  rw [← hall hmade] at h
  obtain ⟨cc, hcc, rfl⟩ := List.mem_map.1 h
  obtain ⟨i, hi, hsame, -⟩ := exists_mem_fixTasks options hcc
  have horder := (w.mem_fixOrder schedule options cases).2 hi
  rw [← w.map_invocation_fixing engine] at horder
  obtain ⟨x, hx, rfl⟩ := List.mem_map.1 horder
  exact ⟨x, hx, hsame⟩

end World

/-! ## A verification -/

namespace Session

variable {s s' : Session} {engine : Engine} {schedule : Schedule} {cases : List GoldenCase}
  {options : Options} {result : Except RunError Verified}

/-- **All files keep their contents** in a verification, however it ends. -/
theorem keeps_of_checkFixes (hengine : engine.ChangesOnlyTargets)
    (h : s.checkFixes engine schedule cases options = (result, s')) : s.world.Keeps s'.world := by
  have hplaces : ∀ cc ∈ (s.world.copyCases cases).1, ∃ place,
      s.world.resolve false cc.copy = .ok (.free place) := fun cc hcc => World.exists_place_of_copy hcc
  obtain ⟨hgrows, -, -, -⟩ := World.copyCases_spec
    (show s.world.copyCases cases = (_, _, _) from rfl)
  rw [checkFixes_eq] at h
  split at h
  next =>
    obtain ⟨-, rfl⟩ := Prod.mk.inj h
    exact (World.dropCopies_spec hgrows.keeps hplaces).1
  next =>
    obtain ⟨-, rfl⟩ := Prod.mk.inj h
    exact (World.dropCopies_spec (World.keeps_fixing hengine) hplaces).1

/-- A verification whose copies could be made asks the engine and compares all copies. -/
theorem checkFixes_of_made (hmade : (s.world.copyCases cases).2.1 = none)
    (h : s.checkFixes engine schedule cases options = (result, s')) :
    result = (((s.world.fixing engine schedule options cases).world.compareCopies
        (s.world.fixing engine schedule options cases).copies).map fun fixes =>
      (fixes, Exchange.byConfig (s.world.fixing engine schedule options cases).exchanges)) ∧
    s'.asked = s.asked ++
      (s.world.fixing engine schedule options cases).exchanges.map Exchange.invocation := by
  rw [checkFixes_eq, hmade] at h
  obtain ⟨rfl, rfl⟩ := Prod.mk.inj h
  exact ⟨rfl, rfl⟩

end Session

end RuleAudit
