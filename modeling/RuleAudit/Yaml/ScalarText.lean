import RuleAudit.Yaml.Source

/-!
# Scalar texts

The text of a scalar in each of its notations. Line breaks inside plain and quoted scalars fold: a
single one reads as a space, of several the first is dropped.
-/

namespace RuleAudit.Yaml

/-! ## Gaps -/

/-- Blanks and line breaks between two words. -/
structure Gap where
  broken : Bool
  blanks : Text
  first : Text
  more : Text

def Gap.none : Gap := ⟨false, [], [], []⟩

/-- What a gap reads as. -/
def Gap.text (g : Gap) : Text :=
  if g.broken then
    if g.first.head? = some '\n' then (if g.more.isEmpty then [' '] else g.more)
    else g.first ++ g.more
  else g.blanks

/-- A gap read on. After a line break, a tab before column `indent` is refused. -/
def readGap (indent : Int) : Nat → Gap → Source → Option (Gap × Source)
  | 0, _, _ => Option.none
  | fuel + 1, g, s =>
    match s.at? 0 with
    | Option.none => some (g, s)
    | some c =>
      if isSpace c then
        if g.broken && (s.column : Int) < indent && c == '\t' then Option.none
        else if g.broken then readGap indent fuel g (s.skip 1)
        else readGap indent fuel { g with blanks := g.blanks ++ [c] } (s.skip 1)
      else if isBreak c then
        let (br, s) := s.takeBreak
        if g.broken then readGap indent fuel { g with more := g.more ++ br } s
        else readGap indent fuel { g with broken := true, blanks := [], first := br } s
      else some (g, s)

/-! ## Plain scalars -/

/-- The characters that end a flow item. -/
def isFlowIndicator (c : Char) : Bool :=
  c == ',' || c == '[' || c == ']' || c == '{' || c == '}'

/-- A word of a plain scalar, last character first. Inside a flow collection a colon before an
indicator is refused. -/
def readWord (flow : Bool) : Nat → Text → Source → Option (Text × Source)
  | 0, _, _ => none
  | fuel + 1, done, s =>
    match s.at? 0 with
    | none => some (done, s)
    | some c =>
      if s.gapAt 0 then some (done, s)
      else if flow && c == ':' && (s.at? 1).any fun d => isFlowIndicator d || d == '?' then none
      else if (c == ':' && s.gapAt 1) || (flow && isFlowIndicator c) then some (done, s)
      else readWord flow fuel (c :: done) (s.skip 1)

/-- The rest of a plain scalar: its text, last character first, whether a line break follows it, and
the source after that. -/
def readWords (flow : Bool) (indent : Int) :
    Nat → Gap → Text → Source → Option (Text × Bool × Source)
  | 0, _, _, _ => none
  | fuel + 1, g, done, s =>
    if s.atDocumentMark || s.has 0 '#' then some (done, g.broken, s)
    else
      match readWord flow (s.rest.length + 1) [] s with
      | none => none
      | some (word, s) =>
        let (done, g) :=
          if word.isEmpty then (done, g) else (word ++ g.text.reverse ++ done, Gap.none)
        if (s.at? 0).any fun c => isSpace c || isBreak c then
          match readGap indent (s.rest.length + 1) g s with
          | none => none
          | some (g, s) =>
            if !flow && (s.column : Int) < indent then some (done, g.broken, s)
            else readWords flow indent fuel g done s
        else some (done, g.broken, s)

/-- A plain scalar: its text, and whether the source after it is on a new line. -/
def readPlain (flow : Bool) (indent : Int) (s : Source) : Option (Text × Bool × Source) :=
  (readWords flow indent (s.rest.length + 1) Gap.none [] s).map fun (done, broken, s) =>
    (done.reverse, broken, s)

/-! ## Quoted scalars -/

def hexDigit? (c : Char) : Option Nat :=
  if c.isDigit then some (c.toNat - 48)
  else if 'a' ≤ c ∧ c ≤ 'f' then some (c.toNat - 87)
  else if 'A' ≤ c ∧ c ≤ 'F' then some (c.toNat - 55)
  else none

/-- The value of hexadecimal digits. -/
def hexNumber? (digits : Text) : Option Nat :=
  digits.foldlM (fun n c => (hexDigit? c).map (n * 16 + ·)) 0

/-- A character given by a number of hexadecimal digits. -/
def readCode (count : Nat) (s : Source) : Option (Char × Source) := do
  let digits := s.rest.take count
  if digits.length < count then none
  let n ← hexNumber? digits
  if (0xD800 ≤ n && n ≤ 0xDFFF) || 0x10FFFF < n then none
  return (Char.ofNat n, s.skip count)

/-- The character of an escape, from the letter after its backslash on. -/
def readEscape (s : Source) : Option (Char × Source) :=
  match s.at? 0 with
  | none => none
  | some c =>
    let next := s.skip 1
    match c with
    | '0' => some ('\x00', next)
    | 'a' => some ('\x07', next)
    | 'b' => some ('\x08', next)
    | 't' | '\t' => some ('\t', next)
    | 'n' => some ('\n', next)
    | 'v' => some ('\x0b', next)
    | 'f' => some ('\x0c', next)
    | 'r' => some ('\r', next)
    | 'e' => some ('\x1b', next)
    | ' ' => some (' ', next)
    | '"' => some ('"', next)
    | '/' => some ('/', next)
    | '\\' => some ('\\', next)
    | 'N' => some ('\u0085', next)
    | '_' => some ('\u00A0', next)
    | 'L' => some ('\u2028', next)
    | 'P' => some ('\u2029', next)
    | 'x' => readCode 2 next
    | 'u' => readCode 4 next
    | 'U' => readCode 8 next
    | _ => none

/-- A word of a quoted scalar, last character first, and whether an escaped line break ends it. -/
def readQuotedWord (quote : Char) : Nat → Text → Source → Option (Text × Bool × Source)
  | 0, _, _ => none
  | fuel + 1, done, s =>
    match s.at? 0 with
    | none => some (done, false, s)
    | some c =>
      if s.gapAt 0 then some (done, false, s)
      else if c == quote then
        if quote == '\'' && s.has 1 '\'' then readQuotedWord quote fuel ('\'' :: done) (s.skip 2)
        else some (done, false, s)
      else if c == '\\' && quote == '"' then
        if s.breakAt 1 then some (done, true, (s.skip 1).takeBreak.2)
        else
          match readEscape (s.skip 1) with
          | none => none
          | some (ch, s) => readQuotedWord quote fuel (ch :: done) s
      else readQuotedWord quote fuel (c :: done) (s.skip 1)

/-- The rest of a quoted scalar, with its text so far, last character first. -/
def readQuotedWords (quote : Char) : Nat → Text → Source → Option (Text × Source)
  | 0, _, _ => none
  | fuel + 1, done, s =>
    if s.atDocumentMark || s.rest.isEmpty then none
    else
      match readQuotedWord quote (s.rest.length + 1) done s with
      | none => none
      | some (done, escaped, s) =>
        if s.has 0 quote then some (done, s.skip 1)
        else
          match readGap (-1) (s.rest.length + 1) { Gap.none with broken := escaped } s with
          | none => none
          | some (g, s) => readQuotedWords quote fuel (g.text.reverse ++ done) s

/-- A quoted scalar, from its opening quote on. -/
def readQuoted (quote : Char) (s : Source) : Option (Text × Source) :=
  (readQuotedWords quote (s.rest.length + 1) [] (s.skip 1)).map fun (done, s) => (done.reverse, s)

/-! ## Block scalars -/

/-- What becomes of the line breaks at the end of a block scalar. -/
inductive Chomping where
  | clip
  | strip
  | keep
  deriving DecidableEq

def chomping? (c : Char) : Option Chomping :=
  if c = '+' then some .keep else if c = '-' then some .strip else none

/-- The indicators after the mark of a block scalar, in either order: chomping and an indentation
from 1 to 9. -/
def readBlockHeader (s : Source) : Option (Chomping × Option Nat × Source) :=
  let digit (s : Source) : Option (Option Nat × Source) :=
    match s.at? 0 with
    | some c =>
      if c == '0' then none
      else if c.isDigit then some (some (c.toNat - 48), s.skip 1)
      else some (none, s)
    | none => some (none, s)
  match (s.at? 0).bind chomping? with
  | some chomping => (digit (s.skip 1)).map fun (n, s) => (chomping, n, s)
  | none =>
    match digit s with
    | none => none
    | some (none, s) => some (.clip, none, s)
    | some (some n, s) =>
      match (s.at? 0).bind chomping? with
      | some chomping => some (chomping, some n, s.skip 1)
      | none => some (.clip, some n, s)

/-- Blank lines before a line of a block scalar: the breaks, the widest indentation seen, and the
source in the line that is not blank. With an indentation given, only so many spaces are skipped; a
tab in their place is refused. -/
def readBlankLines (indent : Option Nat) :
    Nat → Text → Nat → Source → Option (Text × Nat × Source)
  | 0, _, _, _ => none
  | fuel + 1, breaks, widest, s =>
    let spaces := (s.rest.takeWhile (· == ' ')).length
    let s := match indent with
      | none => s.skip spaces
      | some n => s.skip (min spaces (n - s.column))
    let widest := max widest s.column
    if indent.all (s.column < ·) && s.has 0 '\t' then none
    else if s.breakAt 0 then
      let (br, s) := s.takeBreak
      readBlankLines indent fuel (breaks ++ br) widest s
    else some (breaks, widest, s)

/-- The lines of a block scalar. `held` is the break after the line before, `breaks` those of blank
lines after it, and `blank` says whether that line started with a blank. -/
def readBlockLines (folded : Bool) (chomping : Chomping) (indent : Nat) :
    Nat → Text → Text → Text → Bool → Source → Option (Text × Source)
  | 0, _, _, _, _, _ => none
  | fuel + 1, done, held, breaks, blank, s =>
    if s.column == indent && !s.rest.isEmpty then
      let startsBlank := s.spaceAt 0
      let joint :=
        if folded && held.head? = some '\n' && !blank && !startsBlank then
          (if breaks.isEmpty then [' '] else breaks)
        else held ++ breaks
      let line := s.rest.takeWhile fun c => !isBreak c
      let (held, s) := (s.skip line.length).takeBreak
      match readBlankLines (some indent) (s.rest.length + 1) [] 0 s with
      | none => none
      | some (breaks, _, s) =>
        readBlockLines folded chomping indent fuel (done ++ joint ++ line) held breaks startsBlank s
    else
      some (match chomping with
        | .strip => done
        | .clip => done ++ held
        | .keep => done ++ held ++ breaks, s)

/-- A block scalar, from its mark on; `parent` is the indentation of what it is in. Without a given
indentation, that of the first line counts. -/
def readBlock (folded : Bool) (parent : Int) (s : Source) : Option (Text × Source) := do
  let (chomping, increment, s) ← readBlockHeader (s.skip 1)
  let s ← s.finishLine
  let given := increment.map fun n => if 0 ≤ parent then parent.toNat + n else n
  let (breaks, widest, s) ← readBlankLines given (s.rest.length + 1) [] 0 s
  let indent := given.getD (max widest (max (parent + 1).toNat 1))
  readBlockLines folded chomping indent (s.rest.length + 1) [] [] breaks false s

end RuleAudit.Yaml
