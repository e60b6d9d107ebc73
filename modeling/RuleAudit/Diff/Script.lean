/-!
# Edit scripts

A script turns one list into another by keeping, removing and inserting elements. The script built
here keeps as many elements as any script can: a common head and a common tail are kept directly,
and what is between them is settled by dynamic programming over pairs of suffixes.

## Main definitions

* `Edit` — one step of a script.
* `Edit.script` — a script that keeps a longest common subsequence.
-/

namespace RuleAudit

/-- One step of a script from an old list to a new one. -/
inductive Edit where
  | keep
  | remove
  | insert
  deriving DecidableEq, Repr

namespace Edit

variable {α : Type} [DecidableEq α]

/-- A script for a pair of suffixes and the number of elements it keeps. -/
structure Plan where
  kept : Nat
  steps : List Edit
  deriving Repr

/-- The plans for an empty old list and each suffix of the new one, the longest first. -/
def insertions : List α → List Plan
  | [] => [⟨0, []⟩]
  | _ :: ys =>
    match insertions ys with
    | plan :: shorter => ⟨0, insert :: plan.steps⟩ :: plan :: shorter
    | [] => []

/-- The plan for `x :: xs` and `y :: ys` from the plans for the three shorter pairs. Equal heads
are kept; otherwise the head is removed unless inserting keeps more. -/
def extend (x y : α) (removed inserted both : Plan) : Plan :=
  if x = y then ⟨both.kept + 1, keep :: both.steps⟩
  else if inserted.kept ≤ removed.kept then ⟨removed.kept, remove :: removed.steps⟩
  else ⟨inserted.kept, insert :: inserted.steps⟩

/-- The plans for `x :: xs` and each suffix of the new list, from the plans for `xs`. -/
def plansFor (x : α) : List α → List Plan → List Plan
  | y :: ys, removed :: both :: shorter =>
    match plansFor x ys (both :: shorter) with
    | inserted :: rest => extend x y removed inserted both :: inserted :: rest
    | [] => []
  | _, removed :: _ => [⟨removed.kept, remove :: removed.steps⟩]
  | _, [] => []

/-- The plans for an old list and each suffix of the new one. -/
def plans (old new : List α) : List Plan :=
  match old with
  | [] => insertions new
  | x :: xs => plansFor x new (plans xs new)

/-- A script by dynamic programming alone. -/
def plannedScript (old new : List α) : List Edit :=
  match plans old new with
  | plan :: _ => plan.steps
  | [] => []

/-- The length of the longest common head. -/
def commonHead : List α → List α → Nat
  | x :: xs, y :: ys => if x = y then commonHead xs ys + 1 else 0
  | _, _ => 0

/-- A script from `old` to `new` that keeps as many elements as possible. The common head and tail
are kept, so that the quadratic part spans only the changed region. -/
def script (old new : List α) : List Edit :=
  let head := commonHead old new
  let old := old.drop head
  let new := new.drop head
  let tail := commonHead old.reverse new.reverse
  List.replicate head keep ++
    plannedScript (old.take (old.length - tail)) (new.take (new.length - tail)) ++
    List.replicate tail keep

end Edit

end RuleAudit
