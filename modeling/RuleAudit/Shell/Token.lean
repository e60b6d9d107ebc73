import RuleAudit.Shell.Word

/-!
# Tokens of a shell script

A machine eats a script one character at a time. Words, operators and the ends of lines become
tokens. The text between a line with a `<<` and the line that ends it becomes the input of the
command on the first line.
-/

namespace RuleAudit.Shell

inductive Token where
  | word (w : Word)
  | operator (number : Option Nat) (sign : Text)
  | newline
  | input (body : Word)
  deriving DecidableEq, Repr

/-- What the next character belongs to. -/
inductive Mode where
  | plain
  | comment
  | single
  | double
  | escape (quoted : Bool)
  | dollar (quoted : Bool)
  | name (quoted : Bool) (soFar : Text)
  | braced (quoted : Bool) (soFar : Text)
  | sign (number : Option Nat) (soFar : Text)
  | body (line : Text)
  deriving DecidableEq, Repr

/-- An input that begins after the end of the line. -/
structure Awaited where
  ending : Text
  /-- Whether parameters in it stay as they are. -/
  literal : Bool
  deriving DecidableEq, Repr

/-- The state of the machine. -/
structure Lexer where
  mode : Mode
  /-- Whether a double quote is an ordinary character. -/
  inBody : Bool
  word : Option Word
  tokens : List Token
  /-- Whether the word after a `<<` is due. -/
  endingDue : Bool
  awaited : List Awaited
  lines : Text
  /-- The inputs so far, the last one first. -/
  bodies : List (Bool × Text)
  deriving DecidableEq, Repr

def isNameChar (c : Char) : Bool := c.isAlphanum || c = '_'

/-- The special parameters, which are one character long. -/
def isSpecial (c : Char) : Bool :=
  c = '@' || c = '*' || c = '#' || c = '?' || c = '$' || c = '!' || c = '-'

def startsOperator (c : Char) : Bool :=
  c = ';' || c = '&' || c = '|' || c = '<' || c = '>' || c = '(' || c = ')'

/-- The operators of two characters. -/
def longOperators : List Text :=
  ["&&".toList, "||".toList, ";;".toList, "<<".toList, ">>".toList, ">&".toList, "<&".toList]

/-- The number that a text of digits stands for. -/
def number? (t : Text) : Option Nat :=
  if t.isEmpty || !t.all Char.isDigit then none
  else some (t.foldl (fun n c => 10 * n + (c.toNat - '0'.toNat)) 0)

/-- The parameter of the text between braces. -/
def parameterOf (t : Text) : Parameter :=
  let name := if (t.head?.map isSpecial).getD false then t.take 1 else t.takeWhile isNameChar
  match t.drop name.length with
  | ':' :: '-' :: fallback => ⟨name, some fallback, true⟩
  | '-' :: fallback => ⟨name, some fallback, false⟩
  | _ => ⟨name, none, false⟩

/-- The text of a word as it is written, without its quotes. -/
def written (w : Word) : Text :=
  w.flatMap fun
    | .text _ content => content
    | .parameter _ p => '$' :: p.name

/-- Whether some part of a word is quoted. -/
def hasQuotes (w : Word) : Bool :=
  w.any fun
    | .text quoted _ => quoted
    | .parameter quoted _ => quoted

namespace Lexer

/-- Nothing read yet. -/
def start : Lexer := ⟨.plain, false, none, [], false, [], [], []⟩

/-- The word in the making with one piece more. -/
def addPiece (l : Lexer) (p : Piece) : Lexer := { l with word := some (l.word.getD [] ++ [p]) }

/-- The word in the making with one character more. -/
def addChar (l : Lexer) (quoted : Bool) (c : Char) : Lexer :=
  { l with word := some ((l.word.getD []).add quoted c) }

/-- A token more. -/
def emit (l : Lexer) (t : Token) : Lexer := { l with tokens := t :: l.tokens }

def endWord (l : Lexer) : Lexer :=
  match l.word with
  | none => l
  | some w =>
    let l := { l with word := none }
    if l.endingDue then
      { l with endingDue := false, awaited := l.awaited ++ [⟨written w, hasQuotes w⟩] }
    else l.emit (.word w)

/-- The end of a line: the inputs that were announced on it begin. -/
def endLine (l : Lexer) : Lexer :=
  let l := l.endWord.emit .newline
  if l.awaited.isEmpty then { l with mode := .plain } else { l with mode := .body [] }

/-- The start of an operator; digits directly before `<` and `>` belong to it. -/
def startOperator (l : Lexer) (c : Char) : Lexer :=
  let n := if c = '<' || c = '>' then (l.word.bind Word.bare?).bind number? else none
  let l := if n.isSome then { l with word := none } else l.endWord
  { l with mode := .sign n [c] }

def endOperator (l : Lexer) (n : Option Nat) (sign : Text) : Lexer :=
  let l := (l.emit (.operator n sign))
  { l with mode := .plain, endingDue := sign = "<<".toList }

/-- A character outside quotes. -/
def plainStep (l : Lexer) (c : Char) : Lexer :=
  if c = '\n' then l.endLine
  else if c = ' ' || c = '\t' then l.endWord
  else if c = '\'' then { l with mode := .single, word := some (l.word.getD [] ++ [.text true []]) }
  else if c = '"' then { l with mode := .double }
  else if c = '\\' then { l with mode := .escape false }
  else if c = '$' then { l with mode := .dollar false }
  else if c = '#' && l.word.isNone then { l with mode := .comment }
  else if startsOperator c then l.startOperator c
  else l.addChar false c

/-- A character between double quotes. -/
def doubleStep (l : Lexer) (c : Char) : Lexer :=
  if c = '"' && !l.inBody then
    let l := { l with mode := .plain }
    if l.word.isNone then l.addPiece (.text true []) else l
  else if c = '\\' then { l with mode := .escape true }
  else if c = '$' then { l with mode := .dollar true }
  else l.addChar true c

/-- A character in the mode before a parameter. -/
def textStep (l : Lexer) (quoted : Bool) (c : Char) : Lexer :=
  if quoted then { l with mode := .double }.doubleStep c else { l with mode := .plain }.plainStep c

/-- A character after a backslash. Between double quotes only a few are changed by it. -/
def escapeStep (l : Lexer) (quoted : Bool) (c : Char) : Lexer :=
  let l := { l with mode := if quoted then .double else .plain }
  if c = '\n' then l
  else if !quoted then l.addChar true c
  else if c = '$' || c = '\x60' || c = '\\' || (c = '"' && !l.inBody) then l.addChar true c
  else (l.addChar true '\\').addChar true c

/-- A character after a dollar sign. -/
def dollarStep (l : Lexer) (quoted : Bool) (c : Char) : Lexer :=
  if c = '\x7b' then { l with mode := .braced quoted [] }
  else if isSpecial c || c.isDigit then
    let l := l.addPiece (.parameter quoted ⟨[c], none, false⟩)
    { l with mode := if quoted then .double else .plain }
  else if isNameChar c then { l with mode := .name quoted [c] }
  else (l.addChar quoted '$').textStep quoted c

/-- A line of an input ended: it may be the line that ends the input. -/
def bodyLine (l : Lexer) (line : Text) : Lexer :=
  match l.awaited with
  | [] => { l with mode := .plain }
  | a :: rest =>
    if line = a.ending then
      { l with
        awaited := rest
        bodies := (a.literal, l.lines) :: l.bodies
        lines := []
        mode := if rest.isEmpty then .plain else .body [] }
    else { l with lines := l.lines ++ line ++ ['\n'], mode := .body [] }

/-- One character eaten. -/
def step (l : Lexer) (c : Char) : Lexer :=
  match l.mode with
  | .plain => l.plainStep c
  | .comment => if c = '\n' then l.endLine else l
  | .single => if c = '\'' then { l with mode := .plain } else l.addChar true c
  | .double => l.doubleStep c
  | .escape quoted => l.escapeStep quoted c
  | .dollar quoted => l.dollarStep quoted c
  | .name quoted soFar =>
    if isNameChar c then { l with mode := .name quoted (soFar ++ [c]) }
    else (l.addPiece (.parameter quoted ⟨soFar, none, false⟩)).textStep quoted c
  | .braced quoted soFar =>
    if c = '\x7d' then
      { l.addPiece (.parameter quoted (parameterOf soFar)) with
        mode := if quoted then .double else .plain }
    else { l with mode := .braced quoted (soFar ++ [c]) }
  | .sign n soFar =>
    if soFar ++ [c] ∈ longOperators then l.endOperator n (soFar ++ [c])
    else (l.endOperator n soFar).plainStep c
  | .body line => if c = '\n' then l.bodyLine line else { l with mode := .body (line ++ [c]) }

/-- The end of the text. -/
def finish (l : Lexer) : Lexer :=
  match l.mode with
  | .name quoted soFar => l.addPiece (.parameter quoted ⟨soFar, none, false⟩)
  | .dollar quoted => l.addChar quoted '$'
  | _ => l

/-- The inputs, in order. One that no line ends goes to the end of the script. -/
def inputs (l : Lexer) : List (Bool × Text) :=
  match l.mode, l.awaited with
  | .body line, a :: _ =>
    if line = a.ending then (l.bodies.reverse) ++ [(a.literal, l.lines)]
    else l.bodies.reverse ++ [(a.literal, l.lines ++ line)]
  | _, _ => l.bodies.reverse

end Lexer

/-- The word of an input in which parameters are replaced. -/
def Word.ofBody (t : Text) : Word :=
  ((t.foldl Lexer.step { Lexer.start with mode := .double, inBody := true }).finish).word.getD []

/-- The inputs put in the place of the operators that announce them. -/
def attach : List Token → List (Bool × Text) → List Token
  | [], _ => []
  | .operator n sign :: rest, bodies =>
    if sign = "<<".toList then
      match bodies with
      | [] => .input [] :: attach rest []
      | (true, body) :: more => .input [.text true body] :: attach rest more
      | (false, body) :: more => .input (Word.ofBody body) :: attach rest more
    else .operator n sign :: attach rest bodies
  | t :: rest, bodies => t :: attach rest bodies

/-- The tokens of a script; none if a quote is not closed. -/
def Token.ofText (script : Text) : Option (List Token) :=
  let l := (script ++ ['\n']).foldl Lexer.step Lexer.start
  match l.mode with
  | .plain | .body _ => some (attach l.tokens.reverse l.inputs)
  | _ => none

end RuleAudit.Shell
