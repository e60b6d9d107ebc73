import RuleAudit.Pairing.Golden
import RuleAudit.Run.FixPhase
import RuleAudit.Run.Roots

/-!
# A whole run

Files are paired, every config with targets is detected, the answers are judged, and fixes are
verified for what passed.
-/

namespace RuleAudit

/-- What is to be run. -/
structure AuditSettings where
  roots : Roots
  strict : Bool
  deep : Bool
  optimizations : Optimizations

/-- Everything that a run produced. -/
structure Audit where
  report : Report
  fixes : List GoldenVerdict
  outputs : List Json

/-- The phases of a run. -/
inductive Phase where
  | detection
  | autofix
  deriving DecidableEq, Repr

/-- The name of a phase. -/
def Phase.text : Phase → Text
  | .detection => "detection".toList
  | .autofix => "autofix".toList

/-- The document of an invocation, as it is kept. -/
def keptDocument (phase : Phase) (o : Outcome) : Json :=
  .object
    [("config".toList, .string o.config.display), ("phase".toList, .string phase.text),
      ("output".toList, o.scan.raw)]

/-- The failed invocations, for the report. -/
def errorSteps (outcomes : OrderedMap Path Outcome) : List Report.Step :=
  outcomes.entries.filterMap fun (config, o) =>
    o.error.map fun message => .error config message o.scan.raw

namespace Session

/-- The second phase: the fixes of some cases verified. Without cases the engine is not asked. -/
def fixPhase (s : Session) (engine : Engine) (schedule : Schedule) (cases : List GoldenCase)
    (options : Options) : Except RunError Verified × Session :=
  if cases.isEmpty then (.ok ([], .empty), s)
  else s.checkFixes engine schedule cases options

/-- A run over roots that exist. -/
def audit (s : Session) (engine : Engine) (schedule : Schedule) (settings : AuditSettings) :
    Except RunError Audit × Session :=
  match s.world.rootsFor settings.roots.target (some settings.roots.config) with
  | .error e => (.error e, s)
  | .ok roots =>
    let targets :=
      s.world.ownedTargets roots.config (s.world.configsBelow roots.config) roots.target
    let golden := s.world.goldenPairs roots.target targets
    let options := Options.detecting settings.strict settings.deep settings.optimizations
    let (detections, s) := s.invokeAll engine schedule (detectionTasks targets options)
    match s.world.judge targets detections with
    | .error e => (.error e, s)
    | .ok judged =>
      let cases := s.world.fixCases judged.passing golden
      let ungolden := s.world.ungoldenSteps golden
      match s.fixPhase engine schedule cases options with
      | (.error e, s) => (.error e, s)
      | (.ok (fixes, runs), s) =>
        let steps :=
          untestedSteps targets ++ judged.steps ++ ungolden ++ errorSteps runs ++ fixes.map .fix
        (.ok
          { report := Report.ofSteps s.world.normalize steps
            fixes := fixes
            outputs :=
              detections.values.map (keptDocument .detection) ++
                runs.values.map (keptDocument .autofix) },
          s)

end Session

end RuleAudit
