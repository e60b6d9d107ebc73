import RuleAudit.Fixing.Case
import RuleAudit.Json.Value
import RuleAudit.Ordered.Sort
import RuleAudit.Scoring.Verdict
import RuleAudit.Run.Failure

/-!
# Reports

A report gathers what a run found: verdicts, fix tests, configs that nothing tests and configs
whose engine failed.

## Main definitions

* `Report` — the gathered results.
* `Report.Step` — one thing to be gathered; `Report.take` adds it.
* `Report.finish` — the report in its final order.
* `Report.build`, `Report.built` — reports built one after the other.
* `Report.tally`, `Report.exitCode` — what the report amounts to.
-/

namespace RuleAudit

/-- A config whose engine run failed. -/
structure FailedConfig where
  config : Text
  error : Text
  output : Json
  deriving Inhabited

/-- The gathered results of a run. -/
@[ext] structure Report where
  missingTests : List Text
  missingGolden : List Text
  errors : List FailedConfig
  results : OrderedMap Text ConfigVerdict
  fixes : OrderedMap Text Bool

namespace Report

/-- The report of nothing. -/
def empty : Report := ⟨[], [], [], .empty, .empty⟩

/-! ## Gathering -/

/-- One thing to be gathered. -/
inductive Step where
  | missingTests (config : Path)
  | missingGolden (config : Path)
  | error (config : Path) (message : Text) (output : Json)
  | result (config : Path) (verdicts : ConfigVerdict)
  | fix (outcome : GoldenVerdict)

/-- One more thing gathered; `place` gives the file that a path names. A target shared by several
fix tests passes only if all of them do. -/
def take (place : Path → Path) (r : Report) : Step → Report
  | .missingTests config => { r with missingTests := r.missingTests ++ [config.display] }
  | .missingGolden config => { r with missingGolden := r.missingGolden ++ [config.display] }
  | .error config message output =>
    { r with errors := r.errors ++ [⟨config.display, message, output⟩] }
  | .result config verdicts => { r with results := r.results.insert config.display verdicts }
  | .fix outcome =>
    { r with
      fixes := r.fixes.alter (place outcome.case.target).display fun old =>
        old.getD true && outcome.passed }

/-- The report in its final order: the lists are sorted, errors of one config stay in order. -/
def finish (r : Report) : Report :=
  { r with
    missingTests := sortOn id r.missingTests
    missingGolden := sortOn id r.missingGolden
    errors := sortOn FailedConfig.config r.errors }

/-- The report of some steps. -/
def ofSteps (place : Path → Path) (steps : List Step) : Report :=
  (steps.foldl (take place) empty).finish

/-! ## Building -/

/-- Something to be gathered, or the word that a report is complete. -/
inductive Action where
  | take (step : Step)
  | build

/-- The report so far in its final order, and the one that begins after it. -/
def build (r : Report) : Report × Report := (r.finish, empty)

/-- The reports that some actions complete, in order; `r` is what was gathered before them. -/
def built (place : Path → Path) (r : Report) : List Action → List Report
  | [] => []
  | .take step :: rest => built place (r.take place step) rest
  | .build :: rest => r.build.1 :: built place r.build.2 rest

/-! ## Summaries -/

/-- All verdicts, config by config. -/
def checks (r : Report) : List (Text × RuleVerdict) := r.results.values.flatMap (·.entries)

/-- The number of tests and of those that passed. -/
structure Tally where
  /-- One test for each rule of each config. -/
  total : Nat
  passed : Nat
  deriving DecidableEq, Repr

/-- The number of tests that did not pass. -/
def Tally.failed (t : Tally) : Nat := t.total - t.passed

/-- The tests of a report, counted. -/
def tally (r : Report) : Tally := ⟨r.checks.length, (r.checks.filter fun c => c.2.passed).length⟩

/-- Whether some test failed. -/
def anyFailure (r : Report) : Bool := r.checks.any fun c => !c.2.passed

/-- Whether all fix tests passed. -/
def allFixesPassed (r : Report) : Bool := r.fixes.values.all id

/-- What the report amounts to. Engine errors count only when `strict`, and fix tests never do. -/
def exitCode (r : Report) (strict : Bool) : ExitCode :=
  if strict && !r.errors.isEmpty then .fatal
  else if r.anyFailure then .testFailure
  else .success

end Report

end RuleAudit
