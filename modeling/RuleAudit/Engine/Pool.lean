import RuleAudit.Engine.Basic
import RuleAudit.Ordered.Sort

/-!
# Running many invocations

Invocations may run in any order. Their outcomes are collected by config, so the order shows only
in what the engine itself makes of it. Each invocation has the files to itself while it runs; the pool of workers
is only the order in which they do, and can always be built.
-/

namespace RuleAudit

/-- The order in which a number of tasks are run. -/
structure Schedule where
  order : Nat → List Nat
  isOrder : ∀ n, (order n).Perm (List.range n)

/-- The schedule that runs tasks one after the other as they come. -/
def Schedule.inTurn : Schedule := ⟨List.range, fun _ => .refl _⟩

namespace Session

/-- The tasks with the given numbers run in that order, each outcome with its number. -/
def runNumbered (engine : Engine) (tasks : List Invocation) :
    List Nat → Session → List (Nat × Outcome) × Session
  | [], s => ([], s)
  | n :: rest, s =>
    match tasks[n]? with
    | none => runNumbered engine tasks rest s
    | some task =>
      let (outcome, s) := s.invoke engine task
      let (outcomes, s) := runNumbered engine tasks rest s
      ((n, outcome) :: outcomes, s)

/-- All tasks run in the order of a schedule. The outcomes are collected by config in the order of
the tasks; of tasks with the same config the last one counts. -/
def invokeAll (s : Session) (engine : Engine) (schedule : Schedule) (tasks : List Invocation) :
    OrderedMap Path Outcome × Session :=
  let (numbered, s) := runNumbered engine tasks (schedule.order tasks.length) s
  (OrderedMap.ofList ((sortOn (·.1) numbered).map fun (_, o) => (o.config, o)), s)

end Session

end RuleAudit
