import RuleAudit.Text.Basic
import RuleAudit.Text.Unprintable

/-!
# Quoted text

Text in messages stands between quotes, with everything escaped that a reader could not see.
-/

namespace RuleAudit.Text

/-- One character of a quoted text. -/
def escapedForReader (c : Char) : Text :=
  if c = '"' then ['\\', '"']
  else if c = '\\' then ['\\', '\\']
  else if c = '\n' then ['\\', 'n']
  else if c = '\r' then ['\\', 'r']
  else if c = '\t' then ['\\', 't']
  else if c = '\x00' then ['\\', '0']
  else if isUnprintable c then
    ['\\', 'u', '\x7b'] ++ Nat.toDigits 16 c.toNat ++ ['\x7d']
  else [c]

/-- A text between quotes. -/
def quoted (s : Text) : Text := '"' :: s.flatMap escapedForReader ++ ['"']

/-- A list of texts between brackets, each quoted. -/
def quotedList (ss : List Text) : Text :=
  '[' :: List.intercalate [',', ' '] (ss.map quoted) ++ [']']

end RuleAudit.Text
