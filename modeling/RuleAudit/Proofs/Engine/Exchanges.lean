import Mathlib.Data.List.Nodup
import RuleAudit.Engine.Pool
import RuleAudit.Proofs.Ordered.Lookup

/-!
# What an engine is asked and what it answers

The invocations of a phase are made one after the other in the order of a schedule. Whatever that
order is, and whatever becomes of any of them, each is made once, and its outcome is kept under its
config.
-/

namespace RuleAudit

/-- An invocation and the reply to it. -/
structure Exchange where
  invocation : Invocation
  reply : Reply

/-- The config that the invocation was for. -/
def Exchange.config (x : Exchange) : Path := x.invocation.config

/-- What is kept of an exchange. -/
def Exchange.outcome (x : Exchange) : Outcome := Outcome.ofReply x.config x.reply

/-- The outcomes of some exchanges, by config. -/
def Exchange.byConfig (xs : List Exchange) : OrderedMap Path Outcome :=
  OrderedMap.ofList (xs.map fun x => (x.config, x.outcome))

/-- The exchanges of some invocations made one after the other, and the world that they leave. -/
def Engine.exchanges (engine : Engine) : List Invocation → World → List Exchange × World
  | [], w => ([], w)
  | i :: rest, w =>
    let (reply, w) := engine i w
    let (more, w) := Engine.exchanges engine rest w
    (⟨i, reply⟩ :: more, w)

theorem Engine.map_invocation_exchanges (engine : Engine) (is : List Invocation) (w : World) :
    (engine.exchanges is w).1.map Exchange.invocation = is := by
  induction is generalizing w with
  | nil => rfl
  | cons i rest ih => simp [Engine.exchanges, ih]

/-- The configs of some invocations differ, pair by pair. -/
def DistinctConfigs (is : List Invocation) : Prop :=
  is.Pairwise fun i j => compare i.config j.config ≠ .eq

theorem DistinctConfigs.perm {is js : List Invocation} (h : is.Perm js)
    (his : DistinctConfigs is) : DistinctConfigs js :=
  h.pairwise his fun hij hji => hij (Std.OrientedCmp.eq_symm hji)

@[simp] theorem Outcome.config_ofReply (config : Path) (reply : Reply) :
    (Outcome.ofReply config reply).config = config := by
  cases reply <;> rfl

theorem Exchange.distinctKeys {xs : List Exchange}
    (h : DistinctConfigs (xs.map Exchange.invocation)) :
    OrderedMap.DistinctKeys (xs.map fun x => (x.config, x.outcome)) :=
  List.pairwise_map.2 (List.pairwise_map.1 h)

/-- **No outcome is lost** as long as the configs differ. -/
theorem Exchange.entries_byConfig_perm {xs : List Exchange}
    (h : DistinctConfigs (xs.map Exchange.invocation)) :
    (byConfig xs).entries.Perm (xs.map fun x => (x.config, x.outcome)) :=
  OrderedMap.entries_ofList_perm (distinctKeys h)

theorem Exchange.mem_entries_byConfig_iff {xs : List Exchange}
    (h : DistinctConfigs (xs.map Exchange.invocation)) {e : Path × Outcome} :
    e ∈ (byConfig xs).entries ↔ ∃ x ∈ xs, (x.config, x.outcome) = e := by
  rw [(entries_byConfig_perm h).mem_iff, List.mem_map]

theorem Exchange.nodup_configs {xs : List Exchange}
    (h : DistinctConfigs (xs.map Exchange.invocation)) : (xs.map Exchange.config).Nodup := by
  refine List.pairwise_map.2 ((List.pairwise_map.1 h).imp ?_)
  intro a b hab he
  refine hab ?_
  rw [show a.invocation.config = b.invocation.config from he]
  exact Std.ReflCmp.compare_self

/-- An exchange is determined by its config. -/
theorem Exchange.eq_of_config_eq {xs : List Exchange}
    (h : DistinctConfigs (xs.map Exchange.invocation)) {x y : Exchange} (hx : x ∈ xs) (hy : y ∈ xs)
    (hconfig : x.config = y.config) : x = y :=
  List.inj_on_of_nodup_map (nodup_configs h) hx hy hconfig

/-! ## The order of configs -/

/-- Some exchanges in the order of their configs. -/
def Exchange.inOrder (xs : List Exchange) : List Exchange := sortOn config xs

theorem Exchange.inOrder_perm (xs : List Exchange) : (inOrder xs).Perm xs := sortOn_perm config xs

theorem Exchange.inOrder_ascending {xs : List Exchange}
    (h : DistinctConfigs (xs.map Exchange.invocation)) :
    (inOrder xs).Pairwise fun x y => Before x.config y.config := by
  have hdistinct : (inOrder xs).Pairwise fun x y => compare x.config y.config ≠ .eq :=
    (inOrder_perm xs).symm.pairwise (List.pairwise_map.1 h)
      fun hxy hyx => hxy (Std.OrientedCmp.eq_symm hyx)
  refine (hdistinct.and (sortOn_ascending config xs)).imp ?_
  intro x y hxy
  cases hcompare : compare x.config y.config with
  | lt => exact hcompare
  | eq => exact absurd hcompare hxy.1
  | gt => simp [hcompare] at hxy

/-- **The outcomes by config** are those of the exchanges in the order of their configs. -/
theorem Exchange.entries_byConfig {xs : List Exchange}
    (h : DistinctConfigs (xs.map Exchange.invocation)) :
    (byConfig xs).entries = (inOrder xs).map fun x => (x.config, x.outcome) := by
  have hperm : (byConfig xs).entries.Perm ((inOrder xs).map fun x => (x.config, x.outcome)) :=
    (entries_byConfig_perm h).trans ((inOrder_perm xs).symm.map _)
  refine hperm.eq_of_pairwise ?_ (byConfig xs).sorted
    (List.pairwise_map.2 (inOrder_ascending h))
  intro a b _ _ hab hba
  have hlt : compare a.1 a.1 = .lt := Std.TransCmp.lt_trans hab hba
  simp at hlt

/-! ## Schedules -/

namespace Schedule

/-- Some invocations in the order in which the schedule makes them. -/
def arrange (schedule : Schedule) (tasks : List Invocation) : List Invocation :=
  (schedule.order tasks.length).filterMap (tasks[·]?)

theorem filterMap_getElem?_range (tasks : List Invocation) :
    (List.range tasks.length).filterMap (tasks[·]?) = tasks := by
  induction tasks with
  | nil => rfl
  | cons task rest ih =>
    rw [List.length_cons, List.range_succ_eq_map, List.filterMap_cons, List.filterMap_map]
    exact congrArg (task :: ·) ih

/-- **Each invocation is made once.** -/
theorem arrange_perm (schedule : Schedule) (tasks : List Invocation) :
    (schedule.arrange tasks).Perm tasks := by
  have h := (schedule.isOrder tasks.length).filterMap (tasks[·]?)
  rwa [filterMap_getElem?_range] at h

end Schedule

/-! ## A phase -/

namespace Session

/-- Tasks run by number are exchanges, each outcome with its number. -/
theorem runNumbered_eq (engine : Engine) (tasks : List Invocation) (order : List Nat)
    (s : Session) : ∃ numbered,
      runNumbered engine tasks order s =
        (numbered, ⟨(engine.exchanges (order.filterMap (tasks[·]?)) s.world).2,
          s.asked ++ order.filterMap (tasks[·]?)⟩) ∧
      numbered.map (·.2) =
        (engine.exchanges (order.filterMap (tasks[·]?)) s.world).1.map Exchange.outcome := by
  induction order generalizing s with
  | nil => exact ⟨[], by simp [runNumbered, Engine.exchanges], rfl⟩
  | cons n rest ih =>
    cases htask : tasks[n]? with
    | none =>
      rw [List.filterMap_cons_none htask]
      simp only [runNumbered, htask]
      exact ih s
    | some task =>
      obtain ⟨numbered, hrun, hmap⟩ := ih (s.invoke engine task).2
      rw [List.filterMap_cons_some htask]
      refine ⟨(n, (s.invoke engine task).1) :: numbered, ?_, ?_⟩
      · simp only [runNumbered, htask, hrun, Engine.exchanges]
        simp [invoke]
      · rw [List.map_cons, hmap]
        rfl

/-- **A phase consists of the exchanges of its invocations** in the order of the schedule, and the
outcomes are kept by config. -/
theorem invokeAll_eq (s : Session) (engine : Engine) (schedule : Schedule)
    {tasks : List Invocation} (htasks : DistinctConfigs tasks) :
    s.invokeAll engine schedule tasks =
      (Exchange.byConfig (engine.exchanges (schedule.arrange tasks) s.world).1,
        ⟨(engine.exchanges (schedule.arrange tasks) s.world).2,
          s.asked ++ schedule.arrange tasks⟩) := by
  obtain ⟨numbered, hrun, hmap⟩ :=
    runNumbered_eq engine tasks (schedule.order tasks.length) s
  have hconfigs : DistinctConfigs (schedule.arrange tasks) :=
    htasks.perm (schedule.arrange_perm tasks).symm
  rw [invokeAll, hrun]
  refine Prod.ext ?_ rfl
  have hdistinct : OrderedMap.DistinctKeys ((engine.exchanges (schedule.arrange tasks) s.world).1.map
      fun x => (x.config, x.outcome)) := by
    refine Exchange.distinctKeys ?_
    rwa [engine.map_invocation_exchanges]
  -- Sorting by number changes only the order, which does not show in the map.
  refine (OrderedMap.ofList_eq_of_perm hdistinct ?_).symm
  have hpairs : numbered.map (fun e => (e.2.config, e.2)) =
      (engine.exchanges (schedule.arrange tasks) s.world).1.map fun x => (x.config, x.outcome) := by
    have h := congrArg (List.map fun o : Outcome => (o.config, o)) hmap
    rw [List.map_map, List.map_map] at h
    exact h.trans (List.map_congr_left fun x _ => by simp [Exchange.outcome])
  rw [← hpairs]
  exact ((sortOn_perm _ numbered).map _).symm

end Session

end RuleAudit
