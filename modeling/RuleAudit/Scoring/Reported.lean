import RuleAudit.Annotation.Tables
import RuleAudit.Finding

/-!
# What an engine reported

Findings collected by file, by rule and by line, so that neither their order nor their repetition
matters.
-/

namespace RuleAudit

/-- The reported lines of each rule in each file. -/
abbrev Reported := OrderedMap Path (OrderedMap Text (OrderedSet Nat))

/-- The annotations of each fixture. -/
abbrev Annotated := OrderedMap Path Annotations

namespace Reported

/-- One more line for a rule. -/
def addLine (rules : OrderedMap Text (OrderedSet Nat)) (rule : Text) (line : Nat) :
    OrderedMap Text (OrderedSet Nat) :=
  rules.alter rule fun old => (old.getD .empty).insert line

/-- One more finding, in the file that `place` makes of its path. -/
def add (place : Path → Path) (r : Reported) (f : Finding) : Reported :=
  r.alter (place f.path) fun old => addLine (old.getD .empty) f.rule f.line

/-- The findings collected; `place` gives the file that a path names. -/
def ofFindings (place : Path → Path) (fs : List Finding) : Reported :=
  fs.foldl (add place) .empty

/-- The rules reported for a file, with their lines. -/
def rulesOf (r : Reported) (file : Path) : OrderedMap Text (OrderedSet Nat) :=
  (r.get? file).getD .empty

/-- The ids of the rules reported for a file. -/
def idsOf (r : Reported) (file : Path) : OrderedSet Text := OrderedSet.ofList (r.rulesOf file).keys

/-- The lines reported for a rule in a file. -/
def linesOf (r : Reported) (file : Path) (rule : Text) : List Nat :=
  (((r.rulesOf file).get? rule).map OrderedSet.elems).getD []

end Reported

end RuleAudit
