import RuleAudit.Text.Basic

/-!
# UTF-8

Bytes are decoded by a machine that eats one byte at a time. It yields a character for each
complete sequence and one fault for each maximal invalid subpart, so the strict and the forgiving
reading are two views of the same run.

## Main definitions

* `Utf8.units` — the characters and faults of a byte sequence, in order.
* `Utf8.decodeLossy` — each fault read as U+FFFD.
* `Utf8.decode?` — the text of bytes without a fault.
* `Utf8.encode` — the bytes of a text.
-/

namespace RuleAudit.Utf8

/-- What a decoder has read of a sequence that is not complete yet. -/
inductive Progress where
  | idle
  /-- `missing + 1` bytes are due, the next of them from `low` to `high`; `value` holds the bits so
  far. -/
  | pending (missing value low high : Nat)
  deriving DecidableEq, Repr

/-- The effect of a byte that starts a sequence. The bounds on the second byte keep out overlong
forms, surrogates and values above U+10FFFF. -/
def start (b : Nat) : List (Option Char) × Progress :=
  if b < 0x80 then ([some (Char.ofNat b)], .idle)
  else if 0xC2 ≤ b && b ≤ 0xDF then ([], .pending 0 (b - 0xC0) 0x80 0xBF)
  else if b == 0xE0 then ([], .pending 1 0 0xA0 0xBF)
  else if b == 0xED then ([], .pending 1 0xD 0x80 0x9F)
  else if 0xE1 ≤ b && b ≤ 0xEF then ([], .pending 1 (b - 0xE0) 0x80 0xBF)
  else if b == 0xF0 then ([], .pending 2 0 0x90 0xBF)
  else if 0xF1 ≤ b && b ≤ 0xF3 then ([], .pending 2 (b - 0xF0) 0x80 0xBF)
  else if b == 0xF4 then ([], .pending 2 4 0x80 0x8F)
  else ([none], .idle)

/-- One byte eaten: the units it completes and the progress after it. A byte that cannot continue
an open sequence makes that sequence one fault and is then read anew. -/
def feed : Progress → Nat → List (Option Char) × Progress
  | .idle, b => start b
  | .pending missing value low high, b =>
    if low ≤ b && b ≤ high then
      let value := value * 64 + (b - 0x80)
      match missing with
      | 0 => ([some (Char.ofNat value)], .idle)
      | missing + 1 => ([], .pending missing value 0x80 0xBF)
    else
      let (units, next) := start b
      (none :: units, next)

/-- The units of the bytes that follow some progress. -/
def unitsFrom : Progress → List UInt8 → List (Option Char)
  | .idle, [] => []
  | .pending .., [] => [none]
  | progress, b :: rest =>
    let (units, next) := feed progress b.toNat
    units ++ unitsFrom next rest

/-- The characters of a byte sequence, with `none` for each maximal invalid subpart. -/
def units (bytes : List UInt8) : List (Option Char) := unitsFrom .idle bytes

/-- The text of the bytes, where each invalid subpart reads as U+FFFD. -/
def decodeLossy (bytes : List UInt8) : Text := (units bytes).map (·.getD '\uFFFD')

/-- The text of the bytes, if all of them are valid. -/
def decode? (bytes : List UInt8) : Option Text := (units bytes).mapM id

/-- Whether all bytes are valid. -/
def isValid (bytes : List UInt8) : Bool := (decode? bytes).isSome

/-- The bytes of one character. -/
def encodeChar (c : Char) : List UInt8 :=
  let n := c.toNat
  if n < 0x80 then [n.toUInt8]
  else if n < 0x800 then [(0xC0 + n / 64).toUInt8, (0x80 + n % 64).toUInt8]
  else if n < 0x10000 then
    [(0xE0 + n / 4096).toUInt8, (0x80 + n / 64 % 64).toUInt8, (0x80 + n % 64).toUInt8]
  else
    [(0xF0 + n / 262144).toUInt8, (0x80 + n / 4096 % 64).toUInt8, (0x80 + n / 64 % 64).toUInt8,
      (0x80 + n % 64).toUInt8]

/-- The bytes of a text. -/
def encode (s : Text) : List UInt8 := s.flatMap encodeChar

/-- Where bytes are due, a text stands for its bytes. -/
instance : Coe Text (List UInt8) := ⟨encode⟩

/-- The number of bytes of a text. -/
def size (s : Text) : Nat := (encode s).length

end RuleAudit.Utf8
