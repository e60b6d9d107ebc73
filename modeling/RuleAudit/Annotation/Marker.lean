import RuleAudit.Text.Basic

/-!
# Annotation markers

A comment announces what is expected of the line below it. Its marker is one of four words, put
directly after a comment opener or after one blank.
-/

namespace RuleAudit

/-- What an annotation announces of the line below it. -/
inductive Marker where
  | ruleId
  /-- A finding is wanted, but known to be missing. -/
  | todoRuleId
  | ok
  /-- No finding is wanted, but one is known to appear. -/
  | todoOk
  deriving DecidableEq, Repr

namespace Marker

/-- All markers, in the order in which they are listed. -/
def all : List Marker := [ruleId, todoRuleId, ok, todoOk]

def word : Marker → Text
  | .ruleId => "ruleid".toList
  | .todoRuleId => "todoruleid".toList
  | .ok => "ok".toList
  | .todoOk => "todook".toList

/-- The texts that open a comment. -/
def openers : List Text := [['#'], ['/', '/'], ['<', '!', '-', '-'], ['(', '*']]

/-- Whether a text starts with an opener and the word, with at most one blank between them. -/
def opens (m : Marker) (s : Text) : Bool :=
  openers.any fun opener =>
    (opener ++ m.word).isPrefixOf s || (opener ++ ' ' :: m.word).isPrefixOf s

/-- Whether the marker stands anywhere in a line. -/
def occursIn (m : Marker) : Text → Bool
  | [] => false
  | c :: rest => m.opens (c :: rest) || occursIn m rest

def ofLine (line : Text) : List Marker := all.filter fun m => m.occursIn line

end Marker

end RuleAudit
