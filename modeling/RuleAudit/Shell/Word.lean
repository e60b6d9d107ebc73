import RuleAudit.Text.Basic

/-!
# Words of a shell script

A word is made of pieces: text, and parameters that are replaced by what they stand for. Quotes
decide whether a replacement is cut at blanks.
-/

namespace RuleAudit.Shell

/-- A reference to a parameter. -/
structure Parameter where
  name : Text
  /-- The text in its place if it is not set, or if `whenEmpty` holds and it is empty. -/
  fallback : Option Text
  whenEmpty : Bool
  deriving DecidableEq, Repr

/-- A part of a word. -/
inductive Piece where
  | text (quoted : Bool) (content : Text)
  | parameter (quoted : Bool) (p : Parameter)
  deriving DecidableEq, Repr

/-- A word before its parameters are replaced. -/
abbrev Word := List Piece

namespace Word

/-- The text of a word that is nothing but unquoted text; such words can be reserved. -/
def bare? : Word → Option Text
  | [.text false content] => some content
  | _ => none

/-- A word with one character more. A character joins the text before it if both are quoted or
neither is. -/
def add (w : Word) (quoted : Bool) (c : Char) : Word :=
  match w.getLast? with
  | some (.text q content) =>
    if q = quoted then w.dropLast ++ [.text q (content ++ [c])] else w ++ [.text quoted [c]]
  | _ => w ++ [.text quoted [c]]

end Word

/-! ## Making words of contributions -/

/-- What a piece contributes. -/
inductive Field where
  /-- Text that stays together, even if it is empty. -/
  | solid (content : Text)
  | loose (content : Text)
  | cut
  deriving DecidableEq, Repr

/-- The blanks at which text is cut. -/
def isSeparator (c : Char) : Bool := c = ' ' || c = '\t' || c = '\n'

/-- Loose text put after a word in the making: the words that it ends and the last one. -/
def pour : Option Text → Text → List Text × Option Text
  | open?, [] => ([], open?)
  | open?, c :: rest =>
    if isSeparator c then
      let (done, open') := pour none rest
      (open?.toList ++ done, open')
    else pour (some (open?.getD [] ++ [c])) rest

/-- The words of some contributions, after a word in the making. -/
def fieldsAfter : Option Text → List Field → List Text
  | open?, [] => open?.toList
  | open?, .solid t :: rest => fieldsAfter (some (open?.getD [] ++ t)) rest
  | open?, .cut :: rest => open?.toList ++ fieldsAfter none rest
  | open?, .loose t :: rest =>
    let (done, open') := pour open? t
    done ++ fieldsAfter open' rest

/-- The words that are made of contributions. -/
def fieldsOf (fields : List Field) : List Text := fieldsAfter none fields

end RuleAudit.Shell
