import RuleAudit.Scoring.Reported

/-!
# Rule id mismatches

A misspelt rule id in a fixture would let its test pass for nothing. So the ids that a fixture
exercises have to be those reported for it, as soon as anything was reported at all.
-/

namespace RuleAudit

/-- A file whose annotated and reported rule ids differ. -/
structure Mismatch where
  file : Path
  annotatedOnly : List Text
  reportedOnly : List Text
  deriving DecidableEq, Repr

/-- The mismatch of one fixture; a fixture that exercises nothing has none. -/
def mismatchOf (reported : Reported) (file : Path) (notes : Annotations) : Option Mismatch :=
  let tested := notes.tested
  let found := reported.idsOf file
  if tested.isEmpty || tested == found then none
  else some ⟨file, (tested.diff found).elems, (found.diff tested).elems⟩

/-- The fixtures whose annotated and reported ids differ. -/
def mismatches (reported : Reported) (annotated : Annotated) : List Mismatch :=
  if reported.isEmpty then []
  else annotated.entries.filterMap fun (file, notes) => mismatchOf reported file notes

end RuleAudit
