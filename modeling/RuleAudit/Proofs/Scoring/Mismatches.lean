import Mathlib.Data.List.Pairwise
import Mathlib.Data.Set.Basic
import RuleAudit.Proofs.Scoring.Passing

/-!
# Mismatching rule ids

The check of the ids looks at each fixture on its own: the ids it exercises against those that were
reported for its file. It names the fixtures that disagree and how they do, and where it is silent no
fixture passes for want of findings.
-/

namespace RuleAudit

/-- The ids that a fixture exercises: those of lines where a finding is expected or wanted, and of
lines that are fine. -/
def Annotations.exercised (notes : Annotations) : Set Text :=
  {rule | ∃ n, n ∈ notes.expected.linesOf rule ∨ n ∈ notes.ok.linesOf rule}

/-- The ids of the findings in a file; `place` gives the file that a path names. -/
def reportedRules (place : Path → Path) (findings : List Finding) (file : Path) : Set Text :=
  {rule | ∃ x ∈ findings, (place x.path).same file = true ∧ x.rule = rule}

section OneFixture

variable {place : Path → Path} {findings : List Finding} {file : Path} {notes : Annotations}

end OneFixture

/-- What a mismatch says of its fixture: the ids on either side only, ascending. -/
structure Mismatch.Describes (place : Path → Path) (findings : List Finding) (notes : Annotations)
    (m : Mismatch) : Prop where
  annotatedOnly : {rule | rule ∈ m.annotatedOnly} =
    notes.exercised \ reportedRules place findings m.file
  reportedOnly : {rule | rule ∈ m.reportedOnly} =
    reportedRules place findings m.file \ notes.exercised
  annotatedOnly_ascending : m.annotatedOnly.Pairwise Before
  reportedOnly_ascending : m.reportedOnly.Pairwise Before
  disjoint : m.annotatedOnly.Disjoint m.reportedOnly
  not_both_empty : m.annotatedOnly ≠ [] ∨ m.reportedOnly ≠ []

section AllFixtures

variable {place : Path → Path} {findings : List Finding} {annotated : Annotated}

end AllFixtures

end RuleAudit
