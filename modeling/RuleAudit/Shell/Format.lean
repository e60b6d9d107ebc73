import RuleAudit.Shell.Bytes

/-!
# Formatted output of shell commands

The formats of `printf` and the escapes of `echo`, read one character at a time. A format is used again as long as
there are arguments left.
-/

namespace RuleAudit.Shell

inductive FormatPart where
  | bytes (b : List UInt8)
  /-- A place for an argument, with the letter that says how to write it. -/
  | argument (letter : Char)
  deriving DecidableEq, Repr

/-- What has been read of a sequence. -/
inductive FormatState where
  | idle
  | escape
  /-- Digits of a byte, and how many more may follow. -/
  | octal (value more : Nat)
  | percent
  deriving DecidableEq, Repr

/-- Whether a character is an octal digit. -/
def isOctal (c : Char) : Bool := '0' ≤ c && c ≤ '7'

def digitValue (c : Char) : Nat := c.toNat - '0'.toNat

/-- The byte that a letter stands for after a backslash. -/
def escapeByte? (c : Char) : Option UInt8 :=
  (([('n', 10), ('t', 9), ('r', 13), ('\\', 92), ('"', 34), ('a', 7), ('b', 8), ('f', 12),
    ('v', 11)] : List (Char × UInt8)).lookup c)

/-- A character where no sequence is open; percent signs count if `fills` holds. -/
def idleStep (fills : Bool) (c : Char) : FormatState × List FormatPart :=
  if c = '\\' then (.escape, [])
  else if c = '%' && fills then (.percent, [])
  else (.idle, [.bytes (toBytes [c])])

/-- One character read. -/
def formatStep (fills : Bool) : FormatState → Char → FormatState × List FormatPart
  | .idle, c => idleStep fills c
  | .escape, c =>
    if isOctal c then (.octal (digitValue c) (if c = '0' && !fills then 3 else 2), [])
    else
      match escapeByte? c with
      | some b => (.idle, [.bytes [b]])
      | none => (.idle, [.bytes (92 :: toBytes [c])])
  | .octal value (more + 1), c =>
    if isOctal c then (.octal (8 * value + digitValue c) more, [])
    else
      let (next, parts) := idleStep fills c
      (next, .bytes [value.toUInt8] :: parts)
  | .octal value 0, c =>
    let (next, parts) := idleStep fills c
    (next, .bytes [value.toUInt8] :: parts)
  | .percent, c => if c = '%' then (.idle, [.bytes [37]]) else (.idle, [.argument c])

/-- The parts of a text that are read after what is open. -/
def partsFrom (fills : Bool) : FormatState → Text → List FormatPart
  | .idle, [] => []
  | .escape, [] => [.bytes [92]]
  | .octal value _, [] => [.bytes [value.toUInt8]]
  | .percent, [] => [.bytes [37]]
  | state, c :: rest =>
    let (next, parts) := formatStep fills state c
    parts ++ partsFrom fills next rest

def formatParts (format : Text) : List FormatPart := partsFrom true .idle format

/-- A text with its backslash sequences replaced. -/
def unescaped (t : Text) : List UInt8 :=
  (partsFrom false .idle t).flatMap fun
    | .bytes b => b
    | .argument _ => []

/-- An argument written as a letter says: as a number, with sequences replaced, by its first
character, or as it is. -/
def inForm (letter : Char) (argument : Text) : List UInt8 :=
  if letter = 'd' || letter = 'i' then
    let digits := argument.takeWhile fun c => c.isDigit || c = '-' || c = '+'
    toBytes (if digits.isEmpty then ['0'] else digits)
  else if letter = 'b' then unescaped argument
  else if letter = 'c' then toBytes (argument.take 1)
  else toBytes argument

/-- A format filled once, with the arguments that are left. -/
def filled : List FormatPart → List Text → List UInt8 × List Text
  | [], args => ([], args)
  | .bytes b :: rest, args =>
    let (more, args) := filled rest args
    (b ++ more, args)
  | .argument letter :: rest, args =>
    let (more, left) := filled rest args.tail
    (inForm letter (args.headD []) ++ more, left)

/-- Whether a format has a place for an argument. -/
def takesArgument (parts : List FormatPart) : Bool :=
  parts.any fun
    | .argument _ => true
    | .bytes _ => false

/-- A format filled again and again, at most `n + 1` times. -/
def filledUpTo (parts : List FormatPart) : Nat → List Text → List UInt8
  | 0, args => (filled parts args).1
  | n + 1, args =>
    let (bytes, left) := filled parts args
    if left.isEmpty then bytes else bytes ++ filledUpTo parts n left

/-- A format filled as often as it takes to use up the arguments. Each time takes at least one. -/
def formatted (format : Text) (args : List Text) : List UInt8 :=
  let parts := formatParts format
  if takesArgument parts then filledUpTo parts args.length args else (filled parts []).1

end RuleAudit.Shell
