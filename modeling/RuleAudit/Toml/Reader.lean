import RuleAudit.Toml.Scalar

/-!
# Reading TOML documents

A document is a sequence of lines that open a table or give a key its value. Values of one line may span several
where brackets are open.
-/

namespace RuleAudit.Toml

/-! ## Blanks and comments -/

/-- Whether a character may stand in comments and strings: no control but the tab. -/
def isText (c : Char) : Bool := c == '\t' || (0x20 ≤ c.toNat && c.toNat ≠ 0x7F)

def skipSpaces (s : Text) : Text := s.dropWhile fun c => c == ' ' || c == '\t'

/-- What follows a line break. -/
def afterNewline? : Text → Option Text
  | '\n' :: rest => some rest
  | '\r' :: '\n' :: rest => some rest
  | _ => none

def skipComment (s : Text) : Text :=
  match skipSpaces s with
  | '#' :: rest => rest.dropWhile isText
  | s => s

/-- Spaces, comments and line breaks skipped. -/
def skipLines : Nat → Text → Text
  | 0, s => s
  | fuel + 1, s =>
    let s := skipComment s
    match afterNewline? s with
    | some rest => skipLines fuel rest
    | none => s

/-- What follows a statement: the rest of its line may hold only a comment. -/
def finishLine? (s : Text) : Option Text :=
  match skipComment s with
  | [] => some []
  | s => afterNewline? s

/-! ## Strings -/

def hexValue? (c : Char) : Option Nat :=
  if digitValue c < 16 then some (digitValue c) else none

/-- A character given by a number of hexadecimal digits. -/
def readCode (count : Nat) (s : Text) : Option (Char × Text) := do
  let digits := s.take count
  if digits.length < count then none
  let n ← digits.foldlM (fun n c => (hexValue? c).map (n * 16 + ·)) 0
  if (0xD800 ≤ n && n ≤ 0xDFFF) || 0x10FFFF < n then none
  return (Char.ofNat n, s.drop count)

/-- The character of an escape, after its backslash. -/
def readEscape : Text → Option (Char × Text)
  | 'b' :: rest => some ('\x08', rest)
  | 't' :: rest => some ('\t', rest)
  | 'n' :: rest => some ('\n', rest)
  | 'f' :: rest => some ('\x0c', rest)
  | 'r' :: rest => some ('\r', rest)
  | 'e' :: rest => some ('\x1b', rest)
  | '"' :: rest => some ('"', rest)
  | '\\' :: rest => some ('\\', rest)
  | 'x' :: rest => readCode 2 rest
  | 'u' :: rest => readCode 4 rest
  | 'U' :: rest => readCode 8 rest
  | _ => none

/-- A string of one line after its opening quote, read so far in reverse. -/
def readLine (quote : Char) : Nat → Text → Text → Option (Text × Text)
  | 0, _, _ => none
  | _ + 1, _, [] => none
  | fuel + 1, done, c :: rest =>
    if c = quote then some (done.reverse, rest)
    else if c = '\\' ∧ quote = '"' then
      match readEscape rest with
      | none => none
      | some (ch, rest) => readLine quote fuel (ch :: done) rest
    else if isText c then readLine quote fuel (c :: done) rest
    else none

/-- What follows an escaped line break, with all blanks and line breaks after it; none if there is
no line break. -/
def afterFold? (s : Text) : Option Text :=
  match afterNewline? (skipSpaces s) with
  | none => none
  | some rest =>
    some (rest.dropWhile fun c => c == ' ' || c == '\t' || c == '\n' || c == '\r')

/-- A string of several lines after its opening quotes, read so far in reverse. Up to two quotes may
stand before the closing ones. -/
def readLines (quote : Char) : Nat → Text → Text → Option (Text × Text)
  | 0, _, _ => none
  | _ + 1, _, [] => none
  | fuel + 1, done, c :: rest =>
    if c = quote then
      let quotes := ((c :: rest).takeWhile (· == quote)).length
      let after := (c :: rest).drop quotes
      if quotes < 3 then readLines quote fuel (List.replicate quotes quote ++ done) after
      else if 5 < quotes then none
      else some (done.reverse ++ List.replicate (quotes - 3) quote, after)
    else if c = '\\' ∧ quote = '"' then
      match afterFold? rest with
      | some rest => readLines quote fuel done rest
      | none =>
        match readEscape rest with
        | none => none
        | some (ch, rest) => readLines quote fuel (ch :: done) rest
    else
      match afterNewline? (c :: rest) with
      | some rest => readLines quote fuel ('\n' :: done) rest
      | none => if isText c then readLines quote fuel (c :: done) rest else none

/-- A string, from its first quote on. A line break right after three opening quotes does not
count. -/
def readString (quote : Char) (s : Text) : Option (Text × Text) :=
  if [quote, quote, quote].isPrefixOf s then
    let s := s.drop 3
    readLines quote (s.length + 1) [] ((afterNewline? s).getD s)
  else readLine quote (s.length + 1) [] (s.drop 1)

/-! ## Keys -/

/-- A character of a key without quotes. -/
def isKeyChar (c : Char) : Bool := c.isAlphanum || c == '_' || c == '-'

def readKeyPart (s : Text) : Option (Text × Text) :=
  match s with
  | '"' :: rest => readLine '"' (rest.length + 1) [] rest
  | '\'' :: rest => readLine '\'' (rest.length + 1) [] rest
  | _ =>
    let name := s.takeWhile isKeyChar
    if name.isEmpty then none else some (name, s.drop name.length)

/-- The parts of a key with dots between them, and the text after blanks. -/
def readKey : Nat → Text → Option (List Text × Text)
  | 0, _ => none
  | fuel + 1, s =>
    match readKeyPart (skipSpaces s) with
    | none => none
    | some (part, s) =>
      match skipSpaces s with
      | '.' :: rest => (readKey fuel rest).map fun (parts, s) => (part :: parts, s)
      | s => some ([part], s)

/-! ## Values -/

def endsWord (c : Char) : Bool :=
  c == ' ' || c == '\t' || c == '\n' || c == '\r' || c == ',' || c == ']' || c == '}' || c == '#'

/-- A word. A date and a time with one blank between them are one word. -/
def readWord (s : Text) : Text × Text :=
  let word := s.takeWhile fun c => !endsWord c
  let rest := s.drop word.length
  match rest with
  | ' ' :: d :: more =>
    if afterDate? word = some [] ∧ d.isDigit then
      let time := (d :: more).takeWhile fun c => !endsWord c
      (word ++ ' ' :: time, (d :: more).drop time.length)
    else (word, rest)
  | _ => (word, rest)

/-- How deep arrays and tables in braces may be nested. -/
def maxDepth : Nat := 80

mutual

/-- A value; collections are nested at most `room` deep. -/
def readValue : Nat → Nat → Text → Option (Value × Text)
  | 0, _, _ => none
  | fuel + 1, room, s =>
    match s with
    | '"' :: _ => (readString '"' s).map fun (t, s) => (.string t, s)
    | '\'' :: _ => (readString '\'' s).map fun (t, s) => (.string t, s)
    | '[' :: rest =>
      if room = 0 then none
      else (readItems fuel (room - 1) [] rest).map fun (items, s) => (.array items, s)
    | '{' :: rest =>
      if room = 0 then none
      else (readPairs fuel (room - 1) [] rest).map fun (es, s) => (.table .inline es, s)
    | _ =>
      let (word, s) := readWord s
      (scalar? word).map fun v => (v, s)

/-- The items of an array, read so far in reverse. -/
def readItems : Nat → Nat → List Value → Text → Option (List Value × Text)
  | 0, _, _, _ => none
  | fuel + 1, room, done, s =>
    match skipLines (s.length + 1) s with
    | ']' :: rest => some (done.reverse, rest)
    | s =>
      match readValue fuel room s with
      | none => none
      | some (v, s) =>
        match skipLines (s.length + 1) s with
        | ',' :: rest => readItems fuel room (v :: done) rest
        | ']' :: rest => some ((v :: done).reverse, rest)
        | _ => none

/-- The pairs of a table in braces. -/
def readPairs : Nat → Nat → Entries → Text → Option (Entries × Text)
  | 0, _, _, _ => none
  | fuel + 1, room, done, s =>
    match skipLines (s.length + 1) s with
    | '}' :: rest => some (done, rest)
    | s =>
      match readKey (s.length + 1) s with
      | some (key, '=' :: rest) =>
        match readValue fuel room (skipSpaces rest) with
        | none => none
        | some (v, s) =>
          match putDotted key v done with
          | none => none
          | some done =>
            match skipLines (s.length + 1) s with
            | ',' :: rest => readPairs fuel room done rest
            | '}' :: rest => some (done, rest)
            | _ => none
      | _ => none

end

/-! ## Documents -/

/-- The root table, and the way to the table that pairs go to. -/
structure Building where
  root : Entries
  opened : List Text

/-- A header read, after its first bracket; `twice` for a repeated one. -/
def readHeader (b : Building) (twice : Bool) (s : Text) : Option (Building × Text) := do
  let (key, s) ← readKey (s.length + 1) s
  let s ← expect? ']' s
  let s ← if twice then expect? ']' s else some s
  let last ← key.getLast?
  let root ← changeAt (if twice then openItem last else openTable last) key.dropLast b.root
  return (⟨root, key⟩, s)

def readPair (b : Building) (s : Text) : Option (Building × Text) := do
  let (key, s) ← readKey (s.length + 1) s
  let s ← expect? '=' s
  let s := skipSpaces s
  let (v, s) ← readValue (2 * s.length + 2) maxDepth s
  let root ← changeAt (putDotted key v) b.opened b.root
  return ({ b with root := root }, s)

/-- The statements of a document, one after the other. -/
def readStatements : Nat → Building → Text → Option Entries
  | 0, _, _ => none
  | fuel + 1, b, s =>
    let next := match skipLines (s.length + 1) s with
      | [] => some (none, [])
      | '[' :: '[' :: rest => (readHeader b true rest).map fun (b, s) => (some b, s)
      | '[' :: rest => (readHeader b false rest).map fun (b, s) => (some b, s)
      | s => (readPair b s).map fun (b, s) => (some b, s)
    match next with
    | none => none
    | some (none, _) => some b.root
    | some (some b, s) =>
      match finishLine? s with
      | none => none
      | some s => readStatements fuel b s

/-- The root table of a text, which may start with a byte order mark. -/
def document? (s : Text) : Option Entries :=
  let s := match s with
    | '\uFEFF' :: rest => rest
    | _ => s
  readStatements (s.length + 2) ⟨[], []⟩ s

end RuleAudit.Toml
