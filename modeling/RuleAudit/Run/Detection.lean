import RuleAudit.Engine.Pool
import RuleAudit.Scoring.Fixtures
import RuleAudit.Report.Model

/-!
# Detection

The first phase of a run asks the engine for the findings of every config that has targets, and
judges each answer by the annotations of the targets.
-/

namespace RuleAudit

/-- One invocation for each config with targets. -/
def detectionTasks (targets : OrderedMap Path (List Path)) (options : Options) : List Invocation :=
  (targets.entries.filter fun e => !e.2.isEmpty).map fun (config, ts) => ⟨config, ts, options⟩

/-- The configs without targets, for the report. -/
def untestedSteps (targets : OrderedMap Path (List Path)) : List Report.Step :=
  (targets.entries.filter fun e => e.2.isEmpty).map fun e => .missingTests e.1

/-- What the answers of an engine amount to. -/
structure Judged where
  steps : List Report.Step
  passing : OrderedMap Path (OrderedSet Path)
  mismatches : List Mismatch

def Judged.none : Judged := ⟨[], .empty, []⟩

namespace World

/-- One more answer judged. A failed invocation is only reported; a target that cannot be read ends
the run. -/
def judgeOne (w : World) (targets : OrderedMap Path (List Path)) (j : Judged) (config : Path)
    (outcome : Outcome) : Except RunError Judged :=
  match outcome.error with
  | some message =>
    .ok { j with steps := j.steps ++ [.error config message outcome.scan.raw] }
  | none =>
    let ts := (targets.get? config).getD []
    match w.annotationsOf ts with
    | .error e => .error e
    | .ok annotated =>
      match compareFindings (Reported.ofFindings w.normalize outcome.scan.findings) annotated with
      | .error ms => .ok { j with mismatches := j.mismatches ++ ms }
      | .ok comparisons =>
        let result := ConfigVerdict.ofComparisons comparisons
        .ok
          { j with
            steps := j.steps ++ [.result config result]
            passing := j.passing.insert config (passingTargets w.normalize result ts) }

/-- Answers judged one after the other. -/
def judgeInto (w : World) (targets : OrderedMap Path (List Path)) :
    Judged → List (Path × Outcome) → Except RunError Judged
  | j, [] => .ok j
  | j, (config, outcome) :: rest =>
    match w.judgeOne targets j config outcome with
    | .error e => .error e
    | .ok j => judgeInto w targets j rest

/-- All answers judged. Mismatches of any config end the run, after all configs were looked at. -/
def judge (w : World) (targets : OrderedMap Path (List Path))
    (outcomes : OrderedMap Path Outcome) : Except RunError Judged :=
  match w.judgeInto targets .none outcomes.entries with
  | .error e => .error e
  | .ok j => if j.mismatches.isEmpty then .ok j else .error (.ruleIdMismatch j.mismatches)

end World

end RuleAudit
