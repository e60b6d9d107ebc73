import RuleAudit.Path.Basic

/-!
# Engine invocations

What is asked of an engine: to run one rule config over some targets, with options that are passed
on as they are.
-/

namespace RuleAudit

/-- The optimization level of an engine. -/
inductive Optimizations where
  | none
  | all
  deriving DecidableEq, Repr, Inhabited

namespace Optimizations

def word : Optimizations → Text
  | .none => "none".toList
  | .all => "all".toList

def ofWord? (s : Text) : Option Optimizations :=
  if s = Optimizations.none.word then some .none
  else if s = Optimizations.all.word then some .all
  else Option.none

end Optimizations

/-- The options of one invocation. -/
structure Options where
  strict : Bool
  deep : Bool
  noVcsIgnore : Bool
  /-- Report rule ids as the config writes them. -/
  keepRuleIds : Bool
  optimizations : Optimizations
  autofix : Bool
  deriving DecidableEq, Repr, Inhabited

namespace Options

/-- The options of a detection run. -/
def detecting (strict deep : Bool) (level : Optimizations) : Options :=
  ⟨strict, deep, true, true, level, false⟩

/-- The same options with fixing turned on. -/
def fixing (o : Options) : Options := { o with autofix := true }

end Options

/-- One run of an engine. -/
structure Invocation where
  config : Path
  targets : List Path
  options : Options
  deriving DecidableEq, Repr

/-- A word if a condition holds. -/
def wordWhen (b : Bool) (word : Text) : List Text := if b then [word] else []

/-- The words of the command line that asks for an invocation. -/
def Invocation.arguments (i : Invocation) : List Text :=
  ["--json".toList, "--config".toList, i.config.display] ++
    wordWhen i.options.strict "--strict".toList ++
    wordWhen i.options.deep "--deep".toList ++
    wordWhen i.options.noVcsIgnore "--no-git-ignore".toList ++
    wordWhen i.options.keepRuleIds "--no-rewrite-rule-ids".toList ++
    ["--optimizations".toList, i.options.optimizations.word] ++
    wordWhen i.options.autofix "--autofix".toList ++
    i.targets.map Path.display

end RuleAudit
