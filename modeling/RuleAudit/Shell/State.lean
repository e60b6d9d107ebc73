import RuleAudit.Engine.Process
import RuleAudit.Files.World
import RuleAudit.Shell.Bytes
import RuleAudit.Shell.Command

/-!
# The state of a running script

A script changes files and variables as it goes along, and what it writes is collected until it ends.

## Main definitions

* `State` — files, variables, arguments, and what was written so far.
* `State.words` — words with their parameters replaced.
* `Sink` — where output goes, `State.deliver`.
* `State.open?` — the streams of a command after its redirections.
-/

namespace RuleAudit.Shell

/-- A program that a script can start: from the files and its arguments to what it leaves behind. -/
abbrev Program := World → List Text → Finished × World

/-- The state of a running script. -/
structure State where
  world : World
  name : Text
  arguments : List Text
  /-- The program that started the script, if the script can start it as well. -/
  parent : Option Program
  bindings : OrderedMap Text Text
  status : Nat
  ended : Option Status
  stdout : List UInt8
  stderr : List UInt8

namespace State

/-- A script that has not done anything. -/
def start (w : World) (name : Text) (arguments : List Text) (parent : Option Program) : State :=
  ⟨w, name, arguments, parent, .empty, 0, none, [], []⟩

/-! ## Parameters -/

/-- The number of the process that runs a script. -/
def processId : Text := ['1']

/-- The number of the process of the program that started it. -/
def parentId : Text := ['2']

/-- The value of a parameter, if it is set. -/
def value? (s : State) (name : Text) : Option Text :=
  if name = ['#'] then some (Text.ofNat s.arguments.length)
  else if name = ['?'] then some (Text.ofNat s.status)
  else if name = ['$'] then some processId
  else if name = "PPID".toList then some parentId
  else if name = ['@'] ∨ name = ['*'] then
    if s.arguments.isEmpty then none else some (List.intercalate [' '] s.arguments)
  else
    match number? name with
    | some 0 => some s.name
    | some (n + 1) => s.arguments[n]?
    | none => s.bindings.get? name

/-- The text that stands for a parameter. -/
def textOf (s : State) (p : Parameter) : Text :=
  match s.value? p.name with
  | none => p.fallback.getD []
  | some v => if v.isEmpty && p.whenEmpty then p.fallback.getD [] else v

/-- What a piece contributes. All arguments at once stay separate words. -/
def fields (s : State) : Piece → List Field
  | .text true content => [.solid content]
  | .text false content => if content.isEmpty then [] else [.solid content]
  | .parameter quoted p =>
    if p.name = ['@'] then
      List.intersperse .cut (s.arguments.map (if quoted then Field.solid else Field.loose))
    else if quoted then [.solid (s.textOf p)]
    else [.loose (s.textOf p)]

/-- Words with their parameters replaced. -/
def words (s : State) (ws : List Word) : List Text :=
  ws.flatMap fun w => fieldsOf (w.flatMap s.fields)

/-- A word with its parameters replaced and nothing cut. -/
def textOfWord (s : State) (w : Word) : Text :=
  w.flatMap fun
    | .text _ content => content
    | .parameter _ p => s.textOf p

/-- A variable set. -/
def assign (s : State) (name value : Text) : State :=
  { s with bindings := s.bindings.insert name value }

/-- Variables set from the left, so that later values can speak of earlier ones. -/
def assignAll (s : State) (assignments : List (Text × Word)) : State :=
  assignments.foldl (fun s a => s.assign a.1 (s.textOfWord a.2)) s

end State

/-! ## Streams -/

/-- Where output goes. -/
inductive Sink where
  | stdout
  | stderr
  | file (p : Path)
  | nowhere
  deriving DecidableEq, Repr

/-- The streams of a command. -/
structure Streams where
  input : List UInt8
  output : Sink
  messages : Sink

/-- The file that holds nothing and keeps nothing. -/
def nullFile : Text := "/dev/null".toList

namespace State

/-- Bytes put where they go. -/
def deliver (s : State) (sink : Sink) (bytes : List UInt8) : State :=
  match sink with
  | .stdout => { s with stdout := s.stdout ++ bytes }
  | .stderr => { s with stderr := s.stderr ++ bytes }
  | .nowhere => s
  | .file p =>
    let old := (s.world.read p).toOption.getD []
    match s.world.write p (old ++ bytes) with
    | .ok w => { s with world := w }
    | .error _ => s

/-- The streams with one output replaced. -/
def setOutput (t : Streams) (n : Nat) (sink : Sink) : Option Streams :=
  if n = 1 then some { t with output := sink }
  else if n = 2 then some { t with messages := sink }
  else none

/-- The sink of an output number. -/
def sinkOf (t : Streams) (n : Nat) : Option Sink :=
  if n = 1 then some t.output else if n = 2 then some t.messages else none

/-- A redirection carried out; none if it cannot be. -/
def redirect (s : State) (t : Streams) : Redirect → Option (State × Streams)
  | .fromText body => some (s, { t with input := toBytes (s.textOfWord body) })
  | .fromFile file =>
    let p := s.textOfWord file
    if p = nullFile then some (s, { t with input := [] })
    else ((s.world.read (pathOf p)).toOption).map fun bytes => (s, { t with input := bytes })
  | .duplicate n target => do
    let m ← number? (s.textOfWord target)
    let sink ← sinkOf t m
    let t ← setOutput t n sink
    return (s, t)
  | .toFile n continued file => do
    let p := s.textOfWord file
    if p = nullFile then
      let t ← setOutput t n .nowhere
      return (s, t)
    else
      let old := if continued then (s.world.read (pathOf p)).toOption.getD [] else []
      let w ← (s.world.write (pathOf p) old).toOption
      let t ← setOutput t n (.file (pathOf p))
      return ({ s with world := w }, t)

/-- The streams of a command before any redirection. -/
def ordinary : Streams := ⟨[], .stdout, .stderr⟩

/-- The streams of a command after its redirections, from the left. -/
def open? (s : State) (redirects : List Redirect) : Option (State × Streams) :=
  redirects.foldlM (fun (s, t) r => redirect s t r) (s, ordinary)

end State

end RuleAudit.Shell
