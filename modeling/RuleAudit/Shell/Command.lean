import RuleAudit.Shell.Token

/-!
# Commands of a shell script

The commands that stand-in engines are written in. There is no loop over a condition, so every
script comes to an end.
-/

namespace RuleAudit.Shell

/-- Where one of the streams of a command comes from or goes. -/
inductive Redirect where
  | duplicate (number : Nat) (target : Word)
  /-- Output of a number goes to a file, which is emptied or continued. -/
  | toFile (number : Nat) (continued : Bool) (file : Word)
  | fromFile (file : Word)
  | fromText (body : Word)
  deriving DecidableEq, Repr

/-- A command that names what to run. -/
structure SimpleCommand where
  assignments : List (Text × Word)
  words : List Word
  redirects : List Redirect
  deriving DecidableEq, Repr

inductive Command where
  | skip
  | simple (c : SimpleCommand)
  | seq (first second : Command)
  | both (first second : Command)
  | either (first second : Command)
  | negate (c : Command)
  | forEach (name : Text) (words : List Word) (body : Command)
  | branch (condition yes no : Command)
  deriving DecidableEq, Repr

/-! ## Simple commands -/

/-- The words that end a list of commands where a command could start. -/
def closingWords : List Text :=
  ["then".toList, "else".toList, "elif".toList, "fi".toList, "do".toList, "done".toList,
    ['\x7d']]

/-- Whether a text is the name of a variable. -/
def isName (t : Text) : Bool :=
  match t with
  | [] => false
  | c :: _ => !c.isDigit && t.all isNameChar

/-- The variable that a word sets, and the word of its value. -/
def assignment? : Word → Option (Text × Word)
  | .text false content :: rest =>
    match Text.splitFirst? '=' content with
    | some (name, value) =>
      if isName name then
        some (name, if value.isEmpty then rest else .text false value :: rest)
      else none
    | none => none
  | _ => none

/-- The redirection of an operator and the word after it. -/
def redirect? (n : Option Nat) (sign : Text) (w : Word) : Option Redirect :=
  if sign = ">".toList then some (.toFile (n.getD 1) false w)
  else if sign = ">>".toList then some (.toFile (n.getD 1) true w)
  else if sign = ">&".toList then some (.duplicate (n.getD 1) w)
  else if sign = "<".toList then some (.fromFile w)
  else none

/-- The simple command at the start of some tokens, added to what was read of it. -/
def simpleFrom : SimpleCommand → List Token → SimpleCommand × List Token
  | c, .word w :: rest =>
    match c.words, assignment? w with
    | [], some a => simpleFrom { c with assignments := c.assignments ++ [a] } rest
    | _, _ => simpleFrom { c with words := c.words ++ [w] } rest
  | c, .input body :: rest =>
    simpleFrom { c with redirects := c.redirects ++ [.fromText body] } rest
  | c, .operator n sign :: .word w :: rest =>
    match redirect? n sign w with
    | some r => simpleFrom { c with redirects := c.redirects ++ [r] } rest
    | none => (c, .operator n sign :: .word w :: rest)
  | c, rest => (c, rest)

/-- The words before the end of a line or a semicolon. -/
def wordsBefore : List Token → List Word × List Token
  | .word w :: rest =>
    let (ws, rest) := wordsBefore rest
    (w :: ws, rest)
  | rest => ([], rest)

/-! ## Lists of commands -/

def afterLines : List Token → List Token
  | .newline :: rest => afterLines rest
  | rest => rest

/-- Whether a token is a given operator. -/
def isSign (sign : Text) : Token → Bool
  | .operator none s => s == sign
  | _ => false

/-- The tokens after a separator, if there is one. -/
def afterSeparator? : List Token → Option (List Token)
  | .newline :: rest => some rest
  | t :: rest => if isSign [';'] t then some rest else none
  | [] => none

/-- The unquoted word at the start of some tokens. -/
def headWord? : List Token → Option Text
  | .word w :: _ => w.bare?
  | _ => none

/-- The tokens after a reserved word, if it is there. -/
def afterWord? (reserved : Text) (ts : List Token) : Option (List Token) :=
  if headWord? ts = some reserved then some ts.tail else none

/-- How commands are read: the command at the start of some tokens and the tokens after it. -/
abbrev Parse := List Token → Option (Command × List Token)

/-- The rest of a chain of `&&` and `||` after a command. -/
def chainFrom (command : Parse) : Nat → Command → Parse
  | 0, c, ts => some (c, ts)
  | n + 1, c, ts =>
    match ts with
    | t :: rest =>
      if isSign "&&".toList t then do
        let (d, rest) ← command (afterLines rest)
        chainFrom command n (.both c d) rest
      else if isSign "||".toList t then do
        let (d, rest) ← command (afterLines rest)
        chainFrom command n (.either c d) rest
      else some (c, ts)
    | [] => some (c, ts)

/-- Whether a list of commands ends at some tokens. -/
def endsList (ts : List Token) : Bool :=
  ts.isEmpty || (headWord? ts).any closingWords.contains

/-- Commands up to a closing word or the end, each with its chain. -/
def listFrom (command : Parse) : Nat → Command → Parse
  | 0, _, _ => none
  | n + 1, c, ts =>
    let ts := afterLines ts
    if endsList ts then some (c, ts)
    else do
      let (d, rest) ← command ts
      let (d, rest) ← chainFrom command n d rest
      let c := .seq c d
      match afterSeparator? rest with
      | some rest => listFrom command n c rest
      | none => if endsList rest then some (c, rest) else none

/-- The rest of a conditional after `if` or `elif`. -/
def branchFrom (list : Parse) : Nat → Parse
  | 0, _ => none
  | n + 1, ts => do
    let (condition, ts) ← list ts
    let ts ← afterWord? "then".toList ts
    let (yes, ts) ← list ts
    match headWord? ts with
    | some ['f', 'i'] => some (.branch condition yes .skip, ts.tail)
    | some ['e', 'l', 's', 'e'] => do
      let (no, ts) ← list ts.tail
      let ts ← afterWord? "fi".toList ts
      some (.branch condition yes no, ts)
    | some ['e', 'l', 'i', 'f'] => do
      let (no, ts) ← branchFrom list n ts.tail
      some (.branch condition yes no, ts)
    | _ => none

/-- The words that a loop runs over: those after `in`, or all arguments. -/
def loopWords (ts : List Token) : Option (List Word × List Token) :=
  match afterWord? "in".toList ts with
  | some rest => do
    let (ws, rest) := wordsBefore rest
    let rest ← afterSeparator? rest
    some (ws, rest)
  | none =>
    some ([[.parameter true ⟨['@'], none, false⟩]], (afterSeparator? ts).getD ts)

/-- The rest of a loop after `for`. -/
def loopFrom (list : Parse) (ts : List Token) : Option (Command × List Token) := do
  let name ← headWord? ts
  let (words, ts) ← loopWords ts.tail
  let ts ← afterWord? "do".toList (afterLines ts)
  let (body, ts) ← list ts
  let ts ← afterWord? "done".toList ts
  if isName name then some (.forEach name words body, ts) else none

/-- A command, nested at most as deep as a number says. -/
def commandFrom : Nat → Parse
  | 0, _ => none
  | n + 1, ts =>
    let list := listFrom (commandFrom n) (ts.length + 1) .skip
    match headWord? ts with
    | some ['!'] => (commandFrom n ts.tail).map fun (c, rest) => (.negate c, rest)
    | some ['i', 'f'] => branchFrom list ts.length ts.tail
    | some ['f', 'o', 'r'] => loopFrom list ts.tail
    | some ['\x7b'] => do
      let (c, rest) ← list ts.tail
      let rest ← afterWord? ['\x7d'] rest
      some (c, rest)
    | _ =>
      match simpleFrom ⟨[], [], []⟩ ts with
      | (⟨[], [], []⟩, _) => none
      | (c, rest) => some (.simple c, rest)

/-- The command that tokens make up. Each level of nesting takes a token, so the number of tokens
bounds the depth. -/
def Command.ofTokens? (ts : List Token) : Option Command :=
  match listFrom (commandFrom ts.length) (ts.length + 1) .skip ts with
  | some (c, []) => some c
  | _ => none

/-- The command of a script. -/
def Command.ofText? (script : Text) : Option Command := (Token.ofText script).bind Command.ofTokens?

end RuleAudit.Shell
