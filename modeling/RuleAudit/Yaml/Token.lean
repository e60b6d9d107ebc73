import RuleAudit.Yaml.ScalarText
import RuleAudit.Text.Utf8

/-!
# YAML tokens

The tokens of a stream and the notations that a token consists of: anchors, tags and handles.
-/

namespace RuleAudit.Yaml

/-- The notation of a scalar, as far as it matters for what the scalar means. -/
inductive Style where
  | plain
  | quoted
  | literal
  | folded
  deriving DecidableEq, Repr

inductive Token where
  | versionDirective (major minor : Nat)
  | tagDirective (handle expansion : Text)
  | documentStart
  | documentEnd
  | blockSequenceStart
  | blockMappingStart
  | blockEnd
  | flowSequenceStart
  | flowSequenceEnd
  | flowMappingStart
  | flowMappingEnd
  | blockEntry
  | flowEntry
  | key
  | value
  | alias (name : Text)
  | anchor (name : Text)
  | tag (handle suffix : Text)
  | scalar (text : Text) (style : Style)
  deriving DecidableEq, Repr

/-! ## Names -/

/-- The name of an anchor or an alias, from its mark on. -/
def readName (s : Source) : Option (Text × Source) :=
  let s := s.skip 1
  let name := s.rest.takeWhile isWordChar
  let s := s.skip name.length
  if name.isEmpty then none
  else if s.gapAt 0 || (s.at? 0).any fun c => "?:,]\x7d%@`".toList.contains c then some (name, s)
  else none

/-! ## Tags -/

/-- The characters of a tag; a verbatim tag has three more. -/
def isTagChar (verbatim : Bool) (c : Char) : Bool :=
  isWordChar c || ";/?:@&=+$.!~*'()".toList.contains c ||
    (verbatim && (c == ',' || c == '[' || c == ']'))

/-- The bytes of a tag in which an escape stands for a byte; each start byte is followed by as many
continuation bytes as it announces. -/
def readTagBytes (verbatim : Bool) : Nat → Nat → List UInt8 → Source → Option (List UInt8 × Source)
  | 0, _, _, _ => none
  | fuel + 1, due, done, s =>
    match s.at? 0 with
    | some '%' =>
      match (s.at? 1).bind hexDigit?, (s.at? 2).bind hexDigit? with
      | some h, some l =>
        let b := h * 16 + l
        let next := s.skip 3
        if 0 < due then
          if 0x80 ≤ b && b < 0xC0 then
            readTagBytes verbatim fuel (due - 1) (b.toUInt8 :: done) next
          else none
        else if b < 0x80 then readTagBytes verbatim fuel 0 (b.toUInt8 :: done) next
        else if 0xC0 ≤ b && b < 0xE0 then readTagBytes verbatim fuel 1 (b.toUInt8 :: done) next
        else if 0xE0 ≤ b && b < 0xF0 then readTagBytes verbatim fuel 2 (b.toUInt8 :: done) next
        else if 0xF0 ≤ b && b < 0xF8 then readTagBytes verbatim fuel 3 (b.toUInt8 :: done) next
        else none
      | _, _ => none
    | some c =>
      if 0 < due then none
      else if isTagChar verbatim c then
        readTagBytes verbatim fuel 0 ((Utf8.encodeChar c).reverse ++ done) (s.skip 1)
      else some (done.reverse, s)
    | none => if 0 < due then none else some (done.reverse, s)

def readTagText (verbatim : Bool) (s : Source) : Option (Text × Source) :=
  (readTagBytes verbatim (s.rest.length + 1) 0 [] s).map fun (bytes, s) =>
    (Utf8.decodeLossy bytes, s)

/-- The text up to a second exclamation mark, or without one. -/
def readHandle (s : Source) : Option (Text × Source) :=
  if s.has 0 '!' then
    let word := (s.skip 1).rest.takeWhile isWordChar
    let s := s.skip (word.length + 1)
    if s.has 0 '!' then some ('!' :: word ++ ['!'], s.skip 1) else some ('!' :: word, s)
  else none

/-- A tag: a handle and a suffix. A verbatim tag and the lone mark have no handle. -/
def readTag (flow : Bool) (s : Source) : Option (Token × Source) := do
  let (handle, suffix, s) ←
    if s.has 1 '<' then do
      let (text, s) ← readTagText true (s.skip 2)
      if text.isEmpty || !s.has 0 '>' then none
      some ([], text, s.skip 1)
    else do
      let (handle, next) ← readHandle s
      if 1 < handle.length && handle.getLast? == some '!' then
        let (text, s) ← readTagText false next
        if text.isEmpty then none
        some (handle, text, s)
      else
        let (text, s) ← readTagText false next
        let suffix := handle.drop 1 ++ text
        some (if suffix.isEmpty then ([], ['!'], s) else (['!'], suffix, s))
  if s.gapAt 0 || (flow && s.has 0 ',') then some (.tag handle suffix, s) else none

/-! ## Directives -/

/-- A number of a version, of at most nine digits. -/
def readVersionNumber (s : Source) : Option (Nat × Source) :=
  let digits := s.rest.takeWhile Char.isDigit
  if digits.isEmpty || 9 < digits.length then none
  else some (digits.foldl (fun n c => n * 10 + (c.toNat - 48)) 0, s.skip digits.length)

/-- The value of a version directive. -/
def readVersion (s : Source) : Option (Token × Source) := do
  let (major, s) ← readVersionNumber (s.skipWhile isSpace)
  if !s.has 0 '.' then none
  let (minor, s) ← readVersionNumber (s.skip 1)
  return (.versionDirective major minor, s)

/-- The value of a tag directive: a handle and what it stands for. -/
def readTagDirective (s : Source) : Option (Token × Source) := do
  let (handle, s) ← readHandle (s.skipWhile isSpace)
  if handle.getLast? != some '!' then none
  if !s.spaceAt 0 then none
  let (expansion, s) ← readTagText true (s.skipWhile isSpace)
  if expansion.isEmpty || !s.gapAt 0 then none
  return (.tagDirective handle expansion, s)

/-- A directive, from its mark to the end of its line. -/
def readDirective (s : Source) : Option (Token × Source) := do
  let s := s.skip 1
  let name := s.rest.takeWhile isWordChar
  let s := s.skip name.length
  if !s.gapAt 0 then none
  let (token, s) ←
    if name = "YAML".toList then readVersion s
    else if name = "TAG".toList then readTagDirective s
    else none
  let s ← s.finishLine
  return (token, s)

end RuleAudit.Yaml
