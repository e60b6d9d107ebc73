import RuleAudit.Yaml.Token

/-!
# From text to tokens

Indentation opens and closes block collections. Whether a word is a key shows only at the colon
after it, so the place of every possible key is kept until then.

## Main definitions

* `Yaml.Lexing` — the state between two tokens.
* `Yaml.tokens?` — the tokens of a text.
-/

namespace RuleAudit.Yaml

/-- A place where a key may have started. -/
structure PendingKey where
  /-- Whether nothing but a key can stand there. -/
  required : Bool
  number : Nat
  index : Nat
  line : Nat
  column : Nat

/-- The state between two tokens. -/
structure Lexing where
  source : Source
  /-- The possible key of this level and of the flow collections around it, innermost first. -/
  keys : List (Option PendingKey)
  /-- The indentation of the innermost block collection; -1 outside of all. -/
  indent : Int
  outer : List Int
  keyAllowed : Bool
  done : List Token
  count : Nat

namespace Lexing

def start (s : Text) : Lexing := ⟨Source.ofText s, [none], -1, [], true, [], 0⟩

def inFlow (l : Lexing) : Bool := 1 < l.keys.length

/-- One more token. -/
def emit (l : Lexing) (t : Token) : Lexing := { l with done := t :: l.done, count := l.count + 1 }

/-- A token put before those from a number on. -/
def emitAt (l : Lexing) (number : Nat) (t : Token) : Lexing :=
  let after := l.count - number
  { l with done := l.done.take after ++ t :: l.done.drop after, count := l.count + 1 }

/-- A token at the place, with the source after it. -/
def emitTo (l : Lexing) (t : Token) (s : Source) : Lexing := { l.emit t with source := s }

/-- The state with or without leave for a key. -/
def allow (l : Lexing) (b : Bool) : Lexing := { l with keyAllowed := b }

/-! ## Possible keys -/

/-- Whether a possible key lies too far behind: in another line or more than 1024 characters
back. -/
def isStale (s : Source) (k : PendingKey) : Bool := k.line < s.line || k.index + 1024 < s.index

/-- The state without stale keys; a required one may not get stale. -/
def dropStale (l : Lexing) : Option Lexing := do
  let keys ← l.keys.mapM fun
    | none => some none
    | some k =>
      if isStale l.source k then (if k.required then none else some none) else some (some k)
  return { l with keys := keys }

/-- The state without the possible key of this level; a required one may not be dropped. -/
def dropKey (l : Lexing) : Option Lexing :=
  match l.keys with
  | some k :: rest => if k.required then none else some { l with keys := none :: rest }
  | _ => some l

/-- The place taken as a possible key, if one may start here. -/
def saveKey (l : Lexing) : Option Lexing :=
  if l.keyAllowed then do
    let required := !l.inFlow && l.indent == (l.source.column : Int)
    let l ← l.dropKey
    let key : PendingKey :=
      ⟨required, l.count, l.source.index, l.source.line, l.source.column⟩
    return { l with keys := some key :: l.keys.tail }
  else some l

/-! ## Indentation -/

/-- A block collection opened if the column lies deeper than the one around; its token goes before
those from `number` on. -/
def openBlock (l : Lexing) (column : Nat) (number : Nat) (t : Token) : Lexing :=
  if !l.inFlow && l.indent < (column : Int) then
    { l.emitAt number t with indent := column, outer := l.indent :: l.outer }
  else l

/-- Block collections closed that lie deeper than a column, given their number and those around. -/
def closeBlocks (column : Int) : List Int → Lexing → Lexing
  | [], l => l
  | around :: outer, l =>
    if column < l.indent then
      closeBlocks column outer { l.emit .blockEnd with indent := around, outer := outer }
    else l

/-- Block collections closed that lie deeper than a column; inside flow collections there are
none. -/
def unindent (l : Lexing) (column : Int) : Lexing :=
  if l.inFlow then l else closeBlocks column l.outer l

/-! ## Tokens -/

/-- The source at the next token, after blanks, comments and line breaks; the second part says
whether a line break outside of flow collections gives leave for a key. -/
def skipBlank (flow : Bool) : Nat → Bool → Source → Bool × Source
  | 0, allowed, s => (allowed, s)
  | fuel + 1, allowed, s =>
    let s := if s.index == 0 && s.has 0 '\uFEFF' then s.skip 1 else s
    let s := s.skipWhile fun c => c == ' ' || ((flow || !allowed) && c == '\t')
    let s := if s.has 0 '#' then s.skipWhile fun c => !isBreak c else s
    if s.breakAt 0 then skipBlank flow fuel (allowed || !flow) s.takeBreak.2 else (allowed, s)

/-- A mark or a directive that ends all block collections. -/
def topLevel (l : Lexing) (t : Token) (s : Source) : Option Lexing := do
  let l ← (l.unindent (-1)).dropKey
  return (l.allow false).emitTo t s

/-- The start of a flow collection. -/
def openFlow (l : Lexing) (t : Token) : Option Lexing := do
  let l ← l.saveKey
  let l := { l with keys := none :: l.keys }
  return (l.allow true).emitTo t (l.source.skip 1)

/-- The end of a flow collection. -/
def closeFlow (l : Lexing) (t : Token) : Option Lexing := do
  let l ← l.dropKey
  let l := if l.inFlow then { l with keys := l.keys.tail } else l
  return (l.allow false).emitTo t (l.source.skip 1)

/-- The mark of a block entry. Outside of flow collections it needs leave for a key. -/
def entry (l : Lexing) : Option Lexing := do
  if !l.inFlow && !l.keyAllowed then none
  let l := l.openBlock l.source.column l.count .blockSequenceStart
  let l ← l.dropKey
  return (l.allow true).emitTo .blockEntry (l.source.skip 1)

/-- The mark of a key that is given as such. -/
def explicitKey (l : Lexing) : Option Lexing := do
  if !l.inFlow && !l.keyAllowed then none
  let l := l.openBlock l.source.column l.count .blockMappingStart
  let l ← l.dropKey
  return (l.allow !l.inFlow).emitTo .key (l.source.skip 1)

/-- The mark of a value: what a possible key is kept for. -/
def valueMark (l : Lexing) : Option Lexing :=
  match l.keys with
  | some k :: rest =>
    let l := { l.emitAt k.number .key with keys := none :: rest }
    let l := l.openBlock k.column k.number .blockMappingStart
    some ((l.allow false).emitTo .value (l.source.skip 1))
  | _ => do
    if !l.inFlow && !l.keyAllowed then none
    let l := l.openBlock l.source.column l.count .blockMappingStart
    return (l.allow !l.inFlow).emitTo .value (l.source.skip 1)

/-- A token that may be or begin a key. -/
def word (l : Lexing) (read : Source → Option (Token × Source)) : Option Lexing := do
  let l ← l.saveKey
  let (t, s) ← read l.source
  return (l.allow false).emitTo t s

def block (l : Lexing) (folded : Bool) : Option Lexing := do
  let l ← l.dropKey
  let (text, s) ← readBlock folded l.indent l.source
  return (l.allow true).emitTo (.scalar text (if folded then .folded else .literal)) s

/-- A plain scalar. A line break after it gives leave for a key. -/
def plain (l : Lexing) : Option Lexing := do
  let l ← l.saveKey
  let (text, broken, s) ← readPlain l.inFlow (l.indent + 1) l.source
  return (l.allow broken).emitTo (.scalar text .plain) s

/-- Whether a plain scalar can start with a character. -/
def startsPlain (l : Lexing) (c : Char) : Bool :=
  !(isSpace c || "-?:,[]\x7b\x7d#&*!|>'\"%@`".toList.contains c) ||
    (c == '-' && !l.source.spaceAt 1) ||
    (!l.inFlow && (c == '?' || c == ':') && !l.source.gapAt 1)

def tokenAt (l : Lexing) (c : Char) : Option Lexing :=
  let s := l.source
  if s.column == 0 && c == '%' then do
    let l ← (l.unindent (-1)).dropKey
    let (t, s) ← readDirective s
    return (l.allow false).emitTo t s
  else if s.atMark '-' then l.topLevel .documentStart (s.skip 3)
  else if s.atMark '.' then l.topLevel .documentEnd (s.skip 3)
  else if c == '[' then l.openFlow .flowSequenceStart
  else if c == '{' then l.openFlow .flowMappingStart
  else if c == ']' then l.closeFlow .flowSequenceEnd
  else if c == '}' then l.closeFlow .flowMappingEnd
  else if c == ',' then do
    let l ← l.dropKey
    return (l.allow true).emitTo .flowEntry (s.skip 1)
  else if c == '-' && s.gapAt 1 then l.entry
  else if c == '?' && (l.inFlow || s.gapAt 1) then l.explicitKey
  else if c == ':' && (l.inFlow || s.gapAt 1) then l.valueMark
  else if c == '*' then l.word fun s => (readName s).map fun (name, s) => (.alias name, s)
  else if c == '&' then l.word fun s => (readName s).map fun (name, s) => (.anchor name, s)
  else if c == '!' then l.word (readTag l.inFlow)
  else if c == '|' && !l.inFlow then l.block false
  else if c == '>' && !l.inFlow then l.block true
  else if c == '\'' || c == '"' then
    l.word fun s => (readQuoted c s).map fun (text, s) => (.scalar text .quoted, s)
  else if l.startsPlain c then l.plain
  else none

/-- The next token, or the tokens that the end of the text brings about. -/
def next (l : Lexing) : Option (Lexing × Bool) := do
  let (allowed, s) := skipBlank l.inFlow (l.source.rest.length + 1) l.keyAllowed l.source
  let l ← { l with source := s, keyAllowed := allowed }.dropStale
  let l := l.unindent s.column
  match s.at? 0 with
  | none =>
    let l ← (l.unindent (-1)).dropKey
    return (l, true)
  | some c =>
    let l ← l.tokenAt c
    return (l, false)

/-- All tokens. Each but the last round consumes a character. -/
def run : Nat → Lexing → Option Lexing
  | 0, _ => none
  | fuel + 1, l =>
    match l.next with
    | none => none
    | some (l, true) => some l
    | some (l, false) => run fuel l

end Lexing

/-- The tokens of a text, if it holds only allowed characters and each of them is part of one. -/
def tokens? (s : Text) : Option (List Token) :=
  if s.all isAllowed then
    (Lexing.run (s.length + 2) (Lexing.start s)).map fun l => l.done.reverse
  else none

end RuleAudit.Yaml
