import RuleAudit.Annotation.Marker
import RuleAudit.Ordered.Set

/-!
# Rule ids of an annotation

The ids of an annotation stand after the first colon of its line, separated by commas. Tokens that
close a comment are not part of an id.
-/

namespace RuleAudit.Annotation

/-- Why a line names no rule ids. -/
inductive IdFault where
  | missingSeparator
  | noRuleIds
  deriving DecidableEq, Repr

/-- The wording of a fault. -/
def IdFault.message : IdFault → Text
  | .missingSeparator => "no ':' separator".toList
  | .noRuleIds => "no rule id after ':'".toList

/-- The tokens that close a comment. -/
def closers : List Text := [['-', '-', '>'], ['*', ')']]

/-- A piece between commas without blanks at its ends and without closing tokens. -/
def cleanId (piece : Text) : Text :=
  Text.trim (closers.foldl (fun s closer => Text.replaceAll closer [] (Text.trim s)) piece)

/-- The ids of the text after the colon, in order and with repetitions. -/
def idList (s : Text) : List Text :=
  ((Text.splitOn ',' (Text.trim s)).map cleanId).filter fun id => !id.isEmpty

/-- The ids that a line names after its first colon. -/
def parseIds (line : Text) : Except IdFault (OrderedSet Text) :=
  match Text.splitFirst? ':' (Text.trim line) with
  | none => .error .missingSeparator
  | some (_, after) =>
    match idList after with
    | [] => .error .noRuleIds
    | ids => .ok (OrderedSet.ofList ids)

end RuleAudit.Annotation
