import RuleAudit.Settings.Discovery

/-!
# Effective settings

What is given on the command line comes before what a settings file says, and that before the
defaults. How many invocations may run at a time is left open where nothing says so: the program then asks the
machine for its number of processors.
-/

namespace RuleAudit

/-- What is given on the command line. -/
structure GivenSettings where
  start : Option Path
  target : Text
  config : Option Text
  engine : Option Text
  strict : Option Bool
  json : Option Bool
  deep : Option Bool
  optimizations : Option Optimizations
  saveArchive : Option Bool
  jobs : Option Nat
  deriving DecidableEq, Repr

/-- The settings of a run. -/
structure EffectiveSettings where
  root : Path
  target : Path
  config : Option Path
  engine : Text
  strict : Bool
  json : Bool
  deep : Bool
  optimizations : Optimizations
  saveArchive : Bool
  /-- How many invocations may run at a time; as many as there are processors where nothing is
  given. -/
  jobs : Option Nat
  deriving DecidableEq, Repr

/-- The engine where nothing else is given. -/
def defaultEngine : Text := "semgrep".toList

/-- Given settings put before those of a file in a directory, and those before the defaults. A
config root of a file is seen from that directory. -/
def GivenSettings.over (o : GivenSettings) (root : Path) (f : FileSettings) :
    EffectiveSettings where
  root := root
  target := ⟨o.target⟩
  config := (o.config.map fun c : Text => ⟨c⟩).or (f.config.map fun c : Text => root.join ⟨c⟩)
  engine := (o.engine.or f.engine).getD defaultEngine
  strict := (o.strict.or f.strict).getD false
  json := (o.json.or f.json).getD false
  deep := (o.deep.or f.deep).getD false
  optimizations := (o.optimizations.or f.optimizations).getD .none
  saveArchive := (o.saveArchive.or f.saveArchive).getD true
  jobs := o.jobs.or f.jobs

/-- The settings that given ones and the files of a world amount to. -/
def World.effectiveSettings (w : World) (o : GivenSettings) : EffectiveSettings :=
  let root := w.findRoot (o.start.getD ⟨[dot]⟩)
  o.over root ((w.loadSettings root).getD FileSettings.none)

end RuleAudit
