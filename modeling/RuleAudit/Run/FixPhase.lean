import RuleAudit.Fixing.Verification
import RuleAudit.Pairing.Fixes
import RuleAudit.Run.Detection

/-!
# The cases of the second phase

Only targets that passed detection are fixed, with configs that declare a fix and have a golden file
for the target.
-/

namespace RuleAudit.World

/-- The cases of one config: its pairs whose target passed. -/
def casesOf (passing : OrderedMap Path (OrderedSet Path)) (config : Path)
    (pairs : List (Path × Path)) : List GoldenCase :=
  match passing.get? config with
  | none => []
  | some ok => (pairs.filter fun p => ok.contains p.1).map fun p => ⟨config, p.1, p.2⟩

/-- The cases of a run. -/
def fixCases (w : World) (passing : OrderedMap Path (OrderedSet Path))
    (golden : OrderedMap Path (List (Path × Path))) : List GoldenCase :=
  (golden.entries.filter fun e => w.declaresFix e.1).flatMap fun (config, pairs) =>
    casesOf passing config pairs

/-- Configs that declare a fix but have no golden file, for the report. -/
def ungoldenSteps (w : World) (golden : OrderedMap Path (List (Path × Path))) :
    List Report.Step :=
  (golden.entries.filter fun e => e.2.isEmpty && w.declaresFix e.1).map fun e =>
    .missingGolden e.1

end RuleAudit.World
