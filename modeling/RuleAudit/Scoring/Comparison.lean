import RuleAudit.Scoring.Mismatch

/-!
# Comparisons

For each rule and each file, the lines where findings are expected and those where they were
reported. Lines with work still to be done count on neither side.
-/

namespace RuleAudit

/-- The lines of a rule in a file, both lists ascending. -/
structure LineComparison where
  expected : List Nat
  reported : List Nat
  deriving DecidableEq, Repr

/-- Whether the two lists agree. -/
def LineComparison.passed (m : LineComparison) : Bool := m.expected == m.reported

/-- The comparisons of a rule, by the text of the file's path. -/
abbrev FileComparisons := OrderedMap Text LineComparison

/-- The comparisons of each rule. -/
abbrev RuleComparisons := OrderedMap Text FileComparisons

/-- The lines of a rule that are left out of the comparison. -/
def suppressedLines (notes : Annotations) (rule : Text) : List Nat :=
  notes.todoOk.linesOf rule ++ notes.todoExpected.linesOf rule

/-- The comparison of a rule in a file. -/
def lineComparison (reported : Reported) (notes : Annotations) (file : Path) (rule : Text) :
    LineComparison :=
  let suppressed := suppressedLines notes rule
  ⟨(notes.expected.linesOf rule).filter fun n => !suppressed.contains n,
    (reported.linesOf file rule).filter fun n => !suppressed.contains n⟩

/-- The files that are compared: those with expectations and those with findings. -/
def comparedFiles (reported : Reported) (annotated : Annotated) : OrderedSet Path :=
  OrderedSet.ofList
    ((annotated.entries.filter fun e => !e.2.expected.isEmpty).map (·.1) ++ reported.keys)

/-- The rules that are compared in a file: those expected in it and those reported for it. -/
def comparedRules (reported : Reported) (notes : Annotations) (file : Path) : OrderedSet Text :=
  notes.expected.rules.union (reported.idsOf file)

def addComparison (ms : RuleComparisons) (rule file : Text) (m : LineComparison) :
    RuleComparisons :=
  ms.alter rule fun old => (old.getD .empty).insert file m

/-- The comparisons of a file added to others. -/
def compareFile (reported : Reported) (annotated : Annotated) (ms : RuleComparisons) (file : Path) :
    RuleComparisons :=
  let notes := (annotated.get? file).getD .none
  (comparedRules reported notes file).elems.foldl
    (fun ms rule => addComparison ms rule file.display (lineComparison reported notes file rule)) ms

/-- All comparisons. -/
def compareLines (reported : Reported) (annotated : Annotated) : RuleComparisons :=
  (comparedFiles reported annotated).elems.foldl (compareFile reported annotated) .empty

/-- The comparisons of some findings with some annotations. Mismatching rule ids forbid them. -/
def compareFindings (reported : Reported) (annotated : Annotated) :
    Except (List Mismatch) RuleComparisons :=
  match mismatches reported annotated with
  | [] => .ok (compareLines reported annotated)
  | ms => .error ms

end RuleAudit
