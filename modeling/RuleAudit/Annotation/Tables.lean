import RuleAudit.Annotation.Ids

/-!
# Annotations of a fixture

The annotated lines of a fixture, sorted into what is expected, what is fine and what is still to
be done. The line number is that of the line below the comment, counted from one.

## Main definitions

* `RulesByLine` — the rule ids that concern a line.
* `Annotations` — the four tables of a fixture.
* `Annotations.ofText` — the tables of a text.
* `Annotations.tested` — the ids that the fixture exercises.
-/

namespace RuleAudit

/-- The rule ids that concern a line. -/
abbrev RulesByLine := OrderedMap Nat (OrderedSet Text)

namespace RulesByLine

/-- More ids for a line. -/
def add (t : RulesByLine) (line : Nat) (ids : OrderedSet Text) : RulesByLine :=
  t.alter line fun old => (old.getD .empty).union ids

/-- The lines that a rule id concerns, ascending. -/
def linesOf (t : RulesByLine) (id : Text) : List Nat :=
  (t.entries.filter fun e => e.2.contains id).map (·.1)

/-- The ids that concern any line. -/
def rules (t : RulesByLine) : OrderedSet Text :=
  OrderedSet.ofList (t.entries.flatMap fun e => e.2.elems)

end RulesByLine

/-- What one annotated line says. -/
structure Note where
  line : Nat
  markers : List Marker
  ids : OrderedSet Text

/-- The tables of a fixture. -/
structure Annotations where
  expected : RulesByLine
  /-- Lines that are fine as they are, or known to lack their finding. -/
  ok : RulesByLine
  /-- Lines with a finding that should not be there. -/
  todoOk : RulesByLine
  /-- Lines that lack their finding. -/
  todoExpected : RulesByLine
  deriving DecidableEq, Inhabited

namespace Annotations

/-- The tables of a fixture without annotations. -/
def none : Annotations := ⟨.empty, .empty, .empty, .empty⟩

/-- What a line says, if it is an annotation with a colon and at least one id; `above` is the
number of lines before it. -/
def note? (above : Nat) (line : Text) : Option Note :=
  let markers := Marker.ofLine line
  if markers.isEmpty || !line.contains ':' then Option.none
  else
    match Annotation.parseIds line with
    | .error _ => Option.none
    | .ok ids => some ⟨above + 2, markers, ids⟩

/-- The notes of lines of which the first has `above` lines before it. -/
def notesFrom : Nat → List Text → List Note
  | _, [] => []
  | above, line :: rest => (note? above line).toList ++ notesFrom (above + 1) rest

def notes (text : Text) : List Note := notesFrom 0 (Text.splitOn '\n' text)

/-- One more line in a table if the note carries one of some markers. -/
def addWhen (markers : List Marker) (n : Note) (t : RulesByLine) : RulesByLine :=
  if n.markers.any markers.contains then t.add n.line n.ids else t

/-- The tables with one more note. A wanted finding that is missing counts as expected and as
fine, and is left out of the comparison. -/
def record (a : Annotations) (n : Note) : Annotations where
  expected := addWhen [.ruleId, .todoRuleId] n a.expected
  ok := addWhen [.ok, .todoRuleId] n a.ok
  todoOk := addWhen [.todoOk] n a.todoOk
  todoExpected := addWhen [.todoRuleId] n a.todoExpected

def ofText (text : Text) : Annotations := (notes text).foldl record none

/-- The rule ids that the fixture exercises: those expected and those that are fine. -/
def tested (a : Annotations) : OrderedSet Text := a.expected.rules.union a.ok.rules

end Annotations

end RuleAudit
