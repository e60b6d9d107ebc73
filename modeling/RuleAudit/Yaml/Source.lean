import RuleAudit.Text.Basic

/-!
# The text of a YAML stream

A source is what is left of a stream with the place of its first character. Characters are looked at
from a small distance, and past the end there is nothing.
-/

namespace RuleAudit.Yaml

/-- The characters that a stream may hold: no controls but tab, line breaks and U+0085. -/
def isAllowed (c : Char) : Bool :=
  let n := c.toNat
  n == 9 || n == 10 || n == 13 || (0x20 ≤ n && n ≤ 0x7E) || n == 0x85 ||
    (0xA0 ≤ n && n ≤ 0xD7FF) || (0xE000 ≤ n && n ≤ 0xFFFD) || 0x10000 ≤ n

def isBreak (c : Char) : Bool :=
  c == '\n' || c == '\r' || c == '\u0085' || c == '\u2028' || c == '\u2029'

/-- A space or a tab. -/
def isSpace (c : Char) : Bool := c == ' ' || c == '\t'

/-- A character of a name: a letter, a digit, `_` or `-`. -/
def isWordChar (c : Char) : Bool := c.isAlphanum || c == '_' || c == '-'

/-- What is left of a stream, and the place of its first character. -/
structure Source where
  rest : Text
  index : Nat
  line : Nat
  column : Nat

namespace Source

def ofText (s : Text) : Source := ⟨s, 0, 0, 0⟩

/-- The character at a distance. -/
def at? (s : Source) (n : Nat) : Option Char := s.rest[n]?

/-- Whether a given character stands at a distance. -/
def has (s : Source) (n : Nat) (c : Char) : Bool := s.at? n == some c

/-- Whether there is a line break at a distance. -/
def breakAt (s : Source) (n : Nat) : Bool := (s.at? n).any isBreak

/-- Whether there is a space or a tab at a distance. -/
def spaceAt (s : Source) (n : Nat) : Bool := (s.at? n).any isSpace

/-- Whether there is a line break or the end at a distance. -/
def lineEndAt (s : Source) (n : Nat) : Bool := (s.at? n).all isBreak

/-- Whether there is a space, a tab, a line break or the end at a distance. -/
def gapAt (s : Source) (n : Nat) : Bool := (s.at? n).all fun c => isBreak c || isSpace c

/-- The source after some characters of the same line. -/
def skip (n : Nat) (s : Source) : Source :=
  ⟨s.rest.drop n, s.index + n, s.line, s.column + n⟩

/-- The source at the first character of the line that does not satisfy a test. -/
def skipWhile (p : Char → Bool) (s : Source) : Source := s.skip (s.rest.takeWhile p).length

/-- A line break read, and the source after it. Breaks are read as line feeds, except those of
U+2028 and U+2029; where there is none, nothing is read. -/
def takeBreak (s : Source) : Text × Source :=
  match s.rest with
  | '\r' :: '\n' :: rest => (['\n'], ⟨rest, s.index + 2, s.line + 1, 0⟩)
  | c :: rest =>
    if isBreak c then
      (if c == '\u2028' || c == '\u2029' then [c] else ['\n'], ⟨rest, s.index + 1, s.line + 1, 0⟩)
    else ([], s)
  | [] => ([], s)

/-- The source at the end of a line, after blanks and a comment. -/
def skipToLineEnd (s : Source) : Source :=
  let s := s.skipWhile isSpace
  if s.has 0 '#' then s.skipWhile fun c => !isBreak c else s

/-- The source at the start of the next line; none if more than blanks and a comment is left of this
one. -/
def finishLine (s : Source) : Option Source :=
  let s := s.skipToLineEnd
  if s.lineEndAt 0 then some s.takeBreak.2 else none

/-- Whether a line starts with three times a character, followed by a gap. -/
def atMark (s : Source) (c : Char) : Bool :=
  s.column == 0 && s.has 0 c && s.has 1 c && s.has 2 c && s.gapAt 3

/-- Whether a line starts with a mark that begins or ends a document. -/
def atDocumentMark (s : Source) : Bool := s.atMark '-' || s.atMark '.'

end Source

end RuleAudit.Yaml
