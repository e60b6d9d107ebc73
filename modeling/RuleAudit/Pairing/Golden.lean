import RuleAudit.Pairing.Targets

/-!
# Targets and their golden files

A golden file belongs to the targets that name the same test and have the same last suffix.
-/

namespace RuleAudit.World

/-- The golden files below a directory. -/
def goldenFiles (w : World) (base : Path) : List Path :=
  (w.everythingBelow base).filter fun p => w.isFile p && p.isGolden

/-- Whether a golden file belongs to a target. -/
def isGoldenFor (base target golden : Path) : Bool :=
  target.sameLastSuffix golden && Path.samePlace base target base golden

/-- The golden files of a target, among some. -/
def pairsOf (base : Path) (golden : List Path) (target : Path) : List (Path × Path) :=
  (golden.filter fun g => isGoldenFor base target g).map fun g => (target, g)

/-- The pairs of a target and a golden file of each config, in the order of its targets. -/
def goldenPairs (w : World) (targetRoot : Path) (targets : OrderedMap Path (List Path)) :
    OrderedMap Path (List (Path × Path)) :=
  let base := w.baseOf targetRoot
  let golden := w.goldenFiles base
  targets.mapValues fun _ ts => ts.flatMap (pairsOf base golden)

end RuleAudit.World
