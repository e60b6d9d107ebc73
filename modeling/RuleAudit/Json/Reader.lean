import RuleAudit.Json.Value
import RuleAudit.Text.Utf8

/-!
# Reading documents

A reader over bytes that knows the line and the column of the next byte, because the text of a
fault names the place where it was noticed: after the bytes that were consumed, or at the byte that
was looked at.

## Main definitions

* `Json.Fault` — what is wrong, with `Json.Fault.message`.
* `Json.ReadError` — a fault and its place, with `Json.ReadError.message`.
* `Json.read` — the document of a text, nested at most 127 deep.
-/

namespace RuleAudit.Json

/-- What can be wrong with the text of a document. -/
inductive Fault where
  | eofInValue
  | eofInList
  | eofInObject
  | eofInString
  | expectedValue
  | expectedIdent
  | expectedColon
  | expectedCommaOrListEnd
  | expectedCommaOrObjectEnd
  | trailingComma
  | trailingCharacters
  | keyNotString
  | invalidNumber
  | numberOutOfRange
  | invalidEscape
  | controlCharacter
  | unfinishedHexEscape
  | loneSurrogate
  | tooDeep
  deriving DecidableEq, Repr

/-- The wording of a fault. -/
def Fault.message : Fault → Text
  | .eofInValue => "EOF while parsing a value".toList
  | .eofInList => "EOF while parsing a list".toList
  | .eofInObject => "EOF while parsing an object".toList
  | .eofInString => "EOF while parsing a string".toList
  | .expectedValue => "expected value".toList
  | .expectedIdent => "expected ident".toList
  | .expectedColon => "expected `:`".toList
  | .expectedCommaOrListEnd => "expected `,` or `]`".toList
  | .expectedCommaOrObjectEnd => "expected `,` or `\x7d`".toList
  | .trailingComma => "trailing comma".toList
  | .trailingCharacters => "trailing characters".toList
  | .keyNotString => "key must be a string".toList
  | .invalidNumber => "invalid number".toList
  | .numberOutOfRange => "number out of range".toList
  | .invalidEscape => "invalid escape".toList
  | .controlCharacter =>
    "control character (\\u0000-\\u001F) found while parsing a string".toList
  | .unfinishedHexEscape => "unexpected end of hex escape".toList
  | .loneSurrogate => "lone leading surrogate in hex escape".toList
  | .tooDeep => "recursion limit exceeded".toList

/-- A fault and the place where it was noticed. -/
structure ReadError where
  fault : Fault
  line : Nat
  /-- The bytes of that line that were consumed. -/
  column : Nat
  deriving DecidableEq, Repr

/-- The wording of an error: the fault, then its place. -/
def ReadError.message (e : ReadError) : Text :=
  e.fault.message ++ " at line ".toList ++ Text.ofNat e.line ++ " column ".toList ++
    Text.ofNat e.column

/-! ## Position -/

/-- The bytes still to be read, and the place of the first of them. -/
structure Cursor where
  rest : List UInt8
  line : Nat
  column : Nat

namespace Cursor

/-- The start of a text. -/
def ofBytes (bytes : List UInt8) : Cursor := ⟨bytes, 1, 0⟩

/-- The next byte. -/
def peek (c : Cursor) : Option UInt8 := c.rest.head?

/-- The cursor after one more byte; at the end it stays. -/
def advance (c : Cursor) : Cursor :=
  match c.rest with
  | [] => c
  | b :: rest => if b == 10 then ⟨rest, c.line + 1, 0⟩ else ⟨rest, c.line, c.column + 1⟩

/-- The cursor after some more bytes. -/
def skip : Nat → Cursor → Cursor
  | 0, c => c
  | n + 1, c => skip n c.advance

/-- A fault noticed after the bytes consumed so far. -/
def fail {α : Type} (c : Cursor) (f : Fault) : Except ReadError α := .error ⟨f, c.line, c.column⟩

/-- A fault noticed by looking at the next byte. -/
def failAhead {α : Type} (c : Cursor) (f : Fault) : Except ReadError α := c.advance.fail f

/-- The cursor at the first byte that does not satisfy a test. -/
def skipWhile (p : UInt8 → Bool) (c : Cursor) : Cursor := c.skip (c.rest.takeWhile p).length

/-- Blanks skipped. Only space, tab, line feed and carriage return are blanks here. -/
def skipBlanks (c : Cursor) : Cursor :=
  c.skipWhile fun b => b == 32 || b == 9 || b == 10 || b == 13

end Cursor

/-- Whether a byte is a decimal digit. -/
def isDigit (b : UInt8) : Bool := 48 ≤ b && b ≤ 57

def digitValue (b : UInt8) : Nat := b.toNat - 48

/-! ## Words -/

/-- The bytes of a word after its first one. -/
def readWord (value : Json) : List UInt8 → Cursor → Except ReadError (Json × Cursor)
  | [], c => .ok (value, c)
  | expected :: more, c =>
    match c.peek with
    | none => c.fail .eofInValue
    | some b =>
      if b == expected then readWord value more c.advance else c.advance.fail .expectedIdent

/-! ## Numbers -/

/-- The largest unsigned 64-bit integer. -/
def maxSignificand : Nat := Nat.pow 2 64 - 1

/-- A significand times a power of ten, scaled by exact powers up to 308 in as many steps as
needed. After `steps` divisions any significand has become zero. -/
def scaleTen (x : Binary64) : Nat → Int → Option Binary64
  | 0, _ => some x
  | steps + 1, exponent =>
    if exponent.natAbs ≤ 308 then
      if 0 ≤ exponent then x.mul (Binary64.tenPower exponent.natAbs)
      else x.div (Binary64.tenPower exponent.natAbs)
    else if x.isZero then some x
    else if 0 ≤ exponent then none
    else (x.div (Binary64.tenPower 308)).bind fun y => scaleTen y steps (exponent + 308)

/-- The number with a significand and a decimal exponent. -/
def realOf (negative : Bool) (significand : Nat) (exponent : Int) (c : Cursor) :
    Except ReadError (Json × Cursor) :=
  match (Binary64.ofNat? significand).bind fun x => scaleTen x 8 exponent with
  | some x => .ok (.real (if negative then x.neg else x), c)
  | none => c.fail .numberOutOfRange

/-- The digits of an exponent after the first, in `bytes`; more than 32 bits make the number zero
or too large. -/
def readExponentDigits (negative down : Bool) (significand : Nat) (base : Int) :
    List UInt8 → Nat → Cursor → Except ReadError (Json × Cursor)
  | [], exponent, c =>
    let total := if down then base - exponent else base + exponent
    realOf negative significand total c
  | b :: more, exponent, c =>
    if isDigit b then
      let exponent := exponent * 10 + digitValue b
      if Nat.pow 2 31 ≤ exponent then
        if significand != 0 && !down then c.advance.fail .numberOutOfRange
        else .ok (.real (Binary64.zero negative), c.skipWhile isDigit)
      else readExponentDigits negative down significand base more exponent c.advance
    else
      let total := if down then base - exponent else base + exponent
      realOf negative significand total c

/-- The exponent of a number, from its mark on. -/
def readExponent (negative : Bool) (significand : Nat) (base : Int) (c : Cursor) :
    Except ReadError (Json × Cursor) :=
  let c := c.advance
  let (down, c) :=
    match c.peek with
    | some 43 => (false, c.advance)
    | some 45 => (true, c.advance)
    | _ => (false, c)
  match c.peek with
  | none => c.fail .eofInValue
  | some b =>
    if isDigit b then
      readExponentDigits negative down significand base c.advance.rest (digitValue b) c.advance
    else c.advance.fail .invalidNumber

/-- What follows the digits of a number: an exponent or its end. -/
def finishNumber (negative : Bool) (significand : Nat) (exponent : Int) (c : Cursor) :
    Except ReadError (Json × Cursor) :=
  match c.peek with
  | some 69 | some 101 => readExponent negative significand exponent c
  | _ => realOf negative significand exponent c

/-- The digits after the point, in `bytes`, of which `count` were read. Digits that no longer fit
the significand are dropped. -/
def readFraction (negative : Bool) (base : Int) :
    List UInt8 → Nat → Nat → Cursor → Except ReadError (Json × Cursor)
  | [], significand, count, c =>
    if count == 0 then c.failAhead .eofInValue
    else finishNumber negative significand (base - count) c
  | b :: more, significand, count, c =>
    if isDigit b then
      let longer := significand * 10 + digitValue b
      if maxSignificand < longer then
        finishNumber negative significand (base - count) (c.skipWhile isDigit)
      else readFraction negative base more longer (count + 1) c.advance
    else if count == 0 then c.failAhead .invalidNumber
    else finishNumber negative significand (base - count) c

/-- What follows the integer digits of a number: a fraction, an exponent, or its end. -/
def finishInteger (negative : Bool) (significand : Nat) (c : Cursor) :
    Except ReadError (Json × Cursor) :=
  match c.peek with
  | some 46 => readFraction negative 0 c.advance.rest significand 0 c.advance
  | some 69 | some 101 => readExponent negative significand 0 c
  | _ =>
    if !negative then .ok (.integer significand, c)
    else if significand == 0 || Nat.pow 2 63 < significand then realOf true significand 0 c
    else .ok (.integer (-(significand : Int)), c)

/-- The integer digits that no longer fit the significand: each weighs a factor of ten. -/
def finishLongInteger (negative : Bool) (significand : Nat) (c : Cursor) :
    Except ReadError (Json × Cursor) :=
  let extra := (c.rest.takeWhile isDigit).length
  let c := c.skipWhile isDigit
  match c.peek with
  | some 46 => readFraction negative extra c.advance.rest significand 0 c.advance
  | _ => finishNumber negative significand extra c

/-- The integer digits of a number after the first, in `bytes`. -/
def readInteger (negative : Bool) :
    List UInt8 → Nat → Cursor → Except ReadError (Json × Cursor)
  | [], significand, c => finishInteger negative significand c
  | b :: more, significand, c =>
    if isDigit b then
      let longer := significand * 10 + digitValue b
      if maxSignificand < longer then finishLongInteger negative significand c
      else readInteger negative more longer c.advance
    else finishInteger negative significand c

/-- A number after its sign. -/
def readNumber (negative : Bool) (c : Cursor) : Except ReadError (Json × Cursor) :=
  match c.peek with
  | none => c.fail .eofInValue
  | some b =>
    let next := c.advance
    if b == 48 then
      match next.peek with
      | some d => if isDigit d then next.failAhead .invalidNumber else finishInteger negative 0 next
      | none => finishInteger negative 0 next
    else if isDigit b then readInteger negative next.rest (digitValue b) next
    else next.fail .invalidNumber

/-! ## Strings -/

def hexValue? (b : UInt8) : Option Nat :=
  if 48 ≤ b && b ≤ 57 then some (b.toNat - 48)
  else if 97 ≤ b && b ≤ 102 then some (b.toNat - 87)
  else if 65 ≤ b && b ≤ 70 then some (b.toNat - 55)
  else none

/-- Four hexadecimal digits. -/
def readHex (c : Cursor) : Except ReadError (Nat × Cursor) :=
  match c.rest with
  | b1 :: b2 :: b3 :: b4 :: _ =>
    let after := c.skip 4
    match hexValue? b1, hexValue? b2, hexValue? b3, hexValue? b4 with
    | some h1, some h2, some h3, some h4 => .ok (((h1 * 16 + h2) * 16 + h3) * 16 + h4, after)
    | _, _, _, _ => after.fail .invalidEscape
  | _ => (c.skip c.rest.length).fail .eofInString

/-- One byte that has to come next in a surrogate pair. -/
def expectPairByte (expected : UInt8) (c : Cursor) : Except ReadError Cursor :=
  match c.peek with
  | none => c.fail .eofInString
  | some b => if b == expected then .ok c.advance else c.advance.fail .unfinishedHexEscape

/-- The character of a hexadecimal escape, after its letter. -/
def readUnicodeEscape (c : Cursor) : Except ReadError (Char × Cursor) := do
  let (n, c) ← readHex c
  if 0xDC00 ≤ n && n ≤ 0xDFFF then c.fail .loneSurrogate
  else if n < 0xD800 || 0xDBFF < n then .ok (Char.ofNat n, c)
  else
    let c ← expectPairByte 92 c
    let c ← expectPairByte 117 c
    let (n', c) ← readHex c
    if n' < 0xDC00 || 0xDFFF < n' then c.fail .loneSurrogate
    else .ok (Char.ofNat (0x10000 + (n - 0xD800) * 1024 + (n' - 0xDC00)), c)

/-- The character of an escape, after its backslash. -/
def readEscape (c : Cursor) : Except ReadError (Char × Cursor) :=
  match c.peek with
  | none => c.fail .eofInString
  | some b =>
    let next := c.advance
    match b with
    | 34 => .ok ('"', next)
    | 92 => .ok ('\\', next)
    | 47 => .ok ('/', next)
    | 98 => .ok ('\x08', next)
    | 102 => .ok ('\x0c', next)
    | 110 => .ok ('\n', next)
    | 114 => .ok ('\r', next)
    | 116 => .ok ('\t', next)
    | 117 => readUnicodeEscape next
    | _ => next.fail .invalidEscape

/-- The rest of a string whose bytes so far are `done`, last first. Each step consumes a byte, so
`fuel` of one more than the bytes to come suffices. -/
def readStringFrom : Nat → List UInt8 → Cursor → Except ReadError (Text × Cursor)
  | 0, _, c => c.fail .eofInString
  | fuel + 1, done, c =>
    match c.peek with
    | none => c.fail .eofInString
    | some 34 => .ok (Utf8.decodeLossy done.reverse, c.advance)
    | some 92 =>
      match readEscape c.advance with
      | .error e => .error e
      | .ok (ch, c) => readStringFrom fuel ((Utf8.encodeChar ch).reverse ++ done) c
    | some b =>
      if b < 32 then c.advance.fail .controlCharacter
      else readStringFrom fuel (b :: done) c.advance

/-- A string after its opening quote. -/
def readString (c : Cursor) : Except ReadError (Text × Cursor) :=
  readStringFrom (c.rest.length + 1) [] c

/-! ## Documents -/

/-- What a reader of nested documents does next. -/
inductive Goal where
  /-- A value is due; `room` more levels may be opened. -/
  | value (room : Nat)
  | items (room : Nat) (done : List Json)
  | members (room : Nat) (done : List (Text × Json))

/-- One goal reached. Every goal but the end of a container consumes a byte or is followed by one
that does, so a `fuel` of twice the bytes to come suffices. -/
def readGoal : Nat → Goal → Cursor → Except ReadError (Json × Cursor)
  | 0, _, c => c.fail .tooDeep
  | fuel + 1, .value room, c =>
    let c := c.skipBlanks
    match c.peek with
    | none => c.failAhead .eofInValue
    | some 110 => readWord .null [117, 108, 108] c.advance
    | some 116 => readWord (.bool true) [114, 117, 101] c.advance
    | some 102 => readWord (.bool false) [97, 108, 115, 101] c.advance
    | some 45 => readNumber true c.advance
    | some 34 =>
      match readString c.advance with
      | .error e => .error e
      | .ok (s, c) => .ok (.string s, c)
    | some 91 =>
      match room with
      | 0 => c.failAhead .tooDeep
      | room + 1 => readGoal fuel (.items room []) c.advance
    | some 123 =>
      match room with
      | 0 => c.failAhead .tooDeep
      | room + 1 => readGoal fuel (.members room []) c.advance
    | some b => if isDigit b then readNumber false c else c.failAhead .expectedValue
  | fuel + 1, .items room done, c =>
    let c := c.skipBlanks
    let readNext (c : Cursor) : Except ReadError (Json × Cursor) :=
      match readGoal fuel (.value room) c with
      | .error e => .error e
      | .ok (item, c) => readGoal fuel (.items room (item :: done)) c
    match c.peek with
    | none => c.failAhead .eofInList
    | some 93 => .ok (.array done.reverse, c.advance)
    | some b =>
      if done.isEmpty then readNext c
      else if b == 44 then
        let c := c.advance.skipBlanks
        match c.peek with
        | none => c.failAhead .eofInValue
        | some 93 => c.failAhead .trailingComma
        | some _ => readNext c
      else c.failAhead .expectedCommaOrListEnd
  | fuel + 1, .members room done, c =>
    let c := c.skipBlanks
    let readNext (c : Cursor) : Except ReadError (Json × Cursor) :=
      match readString c.advance with
      | .error e => .error e
      | .ok (key, c) =>
        let c := c.skipBlanks
        match c.peek with
        | none => c.failAhead .eofInObject
        | some 58 =>
          match readGoal fuel (.value room) c.advance with
          | .error e => .error e
          | .ok (value, c) => readGoal fuel (.members room (put key value done)) c
        | some _ => c.failAhead .expectedColon
    match c.peek with
    | none => c.failAhead .eofInObject
    | some 125 => .ok (.object done, c.advance)
    | some b =>
      if done.isEmpty then
        if b == 34 then readNext c else c.failAhead .keyNotString
      else if b == 44 then
        let c := c.advance.skipBlanks
        match c.peek with
        | none => c.failAhead .eofInValue
        | some 34 => readNext c
        | some 125 => c.failAhead .trailingComma
        | some _ => c.failAhead .keyNotString
      else c.failAhead .expectedCommaOrObjectEnd

/-- The document of a text whose containers are nested at most `room` deep. Nothing but blanks may
follow it. -/
def readWithin (room : Nat) (s : Text) : Except ReadError Json :=
  let bytes := Utf8.encode s
  match readGoal (2 * bytes.length + 2) (.value room) (Cursor.ofBytes bytes) with
  | .error e => .error e
  | .ok (doc, c) =>
    let c := c.skipBlanks
    match c.peek with
    | none => .ok doc
    | some _ => c.failAhead .trailingCharacters

/-- The document of a text. -/
def read (s : Text) : Except ReadError Json := readWithin 127 s

end RuleAudit.Json
