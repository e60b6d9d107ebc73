import RuleAudit.Shell.Format
import RuleAudit.Shell.State

/-!
# The utilities that scripts use

As much of each utility as the scripts of engines need. What they say about trouble follows the common wording.
-/

namespace RuleAudit.Shell

/-- What a utility writes, and its result; zero is success. -/
structure Output where
  bytes : List UInt8
  messages : List UInt8
  status : Nat

namespace Output

/-- Nothing written, with a result. -/
def quiet (status : Nat) : Output := ⟨[], [], status⟩

/-- A success with output. -/
def ofBytes (bytes : List UInt8) : Output := ⟨bytes, [], 0⟩

/-- A failure with a message. -/
def complaint (status : Nat) (message : Text) : Output :=
  ⟨[], toBytes (message ++ ['\n']), status⟩

/-- Two outputs, one after the other; the second result stays unless it is a success. -/
def append (a b : Output) : Output :=
  ⟨a.bytes ++ b.bytes, a.messages ++ b.messages, if b.status = 0 then a.status else b.status⟩

end Output

inductive Utility where
  | succeed
  | fail
  | exit
  | kill
  | shift
  | echo
  | printf
  | cat
  | test (bracket : Bool)
  | sed
  | rm
  | mkdir
  | ln
  | read
  deriving DecidableEq, Repr

def Utility.ofName? (name : Text) : Option Utility :=
  ([(":".toList, .succeed), ("true".toList, .succeed), ("false".toList, .fail),
    ("exit".toList, .exit), ("kill".toList, .kill), ("shift".toList, .shift),
    ("echo".toList, .echo), ("printf".toList, .printf), ("cat".toList, .cat),
    ("test".toList, .test false), ("[".toList, .test true), ("sed".toList, .sed),
    ("rm".toList, .rm), ("mkdir".toList, .mkdir), ("ln".toList, .ln), ("read".toList, .read)] : List (Text × Utility)).lookup name

/-! ## Conditions -/

/-- Two numbers compared by an operator, if it is one. -/
def compareNumbers? (op : Text) (a b : Nat) : Option Bool :=
  if op = "-eq".toList then some (a == b)
  else if op = "-ne".toList then some (a != b)
  else if op = "-lt".toList then some (a < b)
  else if op = "-le".toList then some (a ≤ b)
  else if op = "-gt".toList then some (b < a)
  else if op = "-ge".toList then some (b ≤ a)
  else none

/-- A condition on one text. -/
def unaryTest? (w : World) (op argument : Text) : Option Bool :=
  if op = "-n".toList then some (!argument.isEmpty)
  else if op = "-z".toList then some argument.isEmpty
  else if op = "-e".toList then some (w.has (pathOf argument))
  else if op = "-f".toList then some (w.isFile (pathOf argument))
  else if op = "-d".toList then some (w.isDirectory (pathOf argument))
  else if op = "-s".toList then some (!((w.read (pathOf argument)).toOption.getD []).isEmpty)
  else none

/-- A condition on two texts. -/
def binaryTest? (a op b : Text) : Option Bool :=
  if op = ['='] then some (a == b)
  else if op = "!=".toList then some (a != b)
  else
    match number? a, number? b with
    | some m, some n => compareNumbers? op m n
    | _, _ => none

/-- The value of a condition; none if it cannot be understood. -/
def testWords? (w : World) : List Text → Option Bool
  | [] => some false
  | [a] => some (!a.isEmpty)
  | [op, a] => if op = ['!'] then some a.isEmpty else unaryTest? w op a
  | [a, op, b] =>
    match binaryTest? a op b with
    | some answer => some answer
    | none => if a = ['!'] then (testWords? w [op, b]).map not else none
  | a :: rest => if a = ['!'] then (testWords? w rest).map not else none

/-- The words of a condition in brackets. -/
def insideBrackets? (args : List Text) : Option (List Text) :=
  if args.getLast? = some [']'] then some args.dropLast else none

/-- The result of a condition. -/
def testOutput (w : World) (args : Option (List Text)) : Output :=
  match args.bind (testWords? w) with
  | some true => .quiet 0
  | some false => .quiet 1
  | none => .complaint 2 "unexpected operator".toList

/-! ## Files -/

/-- The wording of a cause as utilities write it. -/
def causeText (c : Cause) : Text := c.message.takeWhile (· ≠ '(') |> Text.trimEnd

/-- The contents of a file, or of the input where the name is a dash. -/
def catOne (w : World) (input : List UInt8) (name : Text) : Output :=
  if name = ['-'] then .ofBytes input
  else
    match w.read (pathOf name) with
    | .ok bytes => .ofBytes bytes
    | .error cause =>
      .complaint 1 ("cat: ".toList ++ name ++ ": ".toList ++ causeText cause)

/-- Files removed; with `force`, those that are not there do not count. -/
def removeAll (force : Bool) : World → List Text → Output × World
  | w, [] => (.quiet 0, w)
  | w, name :: rest =>
    match w.remove (pathOf name) with
    | .ok w => removeAll force w rest
    | .error cause =>
      let (more, w) := removeAll force w rest
      if force && cause = .notFound then (more, w)
      else
        ((Output.complaint 1
          ("rm: cannot remove '".toList ++ name ++ "': ".toList ++ causeText cause)).append more,
          w)

def makeDirectory (w : World) (name : Text) : Output × World :=
  let failure (reason : Text) : Output :=
    .complaint 1 ("mkdir: cannot create directory '".toList ++ name ++ "': ".toList ++ reason)
  match w.resolve false (pathOf name) with
  | .ok (.free place) => (.quiet 0, w.put place .directory)
  | .ok (.taken ..) => (failure "File exists".toList, w)
  | .error cause => (failure (causeText cause), w)

/-- Directories made, one after the other. -/
def makeDirectories : World → List Text → Output × World
  | w, [] => (.quiet 0, w)
  | w, name :: rest =>
    let (first, w) := makeDirectory w name
    let (more, w) := makeDirectories w rest
    (first.append more, w)

/-- A symbolic link made, below the path if that is a directory. -/
def makeLink (w : World) (target name : Text) : Output × World :=
  let p := pathOf name
  let last := ((pathOf target).fileName?).getD []
  let p := if w.isDirectory p then p.join ⟨last⟩ else p
  match w.resolve false p with
  | .ok (.free place) => (.quiet 0, w.put place (.link (toBytes target)))
  | .ok (.taken ..) =>
    (.complaint 1 ("ln: failed to create symbolic link '".toList ++ name ++ "'".toList), w)
  | .error cause =>
    (.complaint 1 ("ln: failed to create symbolic link '".toList ++ name ++ "': ".toList ++
      causeText cause), w)

/-! ## Variables -/

/-- A line without the backslashes that keep the next character from being a blank. -/
def unescapedLine : Text → Text
  | '\\' :: c :: rest => c :: unescapedLine rest
  | c :: rest => c :: unescapedLine rest
  | [] => []

/-- The words of a line given to variables from the left; the last one takes all that is left. -/
def assignWords (s : State) : List Text → Text → State
  | [], _ => s
  | [name], line =>
    let word := line.dropWhile isSeparator
    s.assign name (word.reverse.dropWhile isSeparator).reverse
  | name :: names, line =>
    let word := line.dropWhile isSeparator
    assignWords (s.assign name (word.takeWhile fun c => !isSeparator c)) names
      (word.dropWhile fun c => !isSeparator c)

/-! ## Replacing -/

/-- A replacement in each line. -/
structure Substitution where
  old : List UInt8
  new : List UInt8
  everywhere : Bool

/-- The substitution that a text such as `s/old/new/g` describes. -/
def Substitution.ofText? : Text → Option Substitution
  | 's' :: mark :: body =>
    match Text.splitOn mark body with
    | [old, new, flags] =>
      if old.isEmpty then none
      else if flags = [] then some ⟨toBytes old, toBytes new, false⟩
      else if flags = ['g'] then some ⟨toBytes old, toBytes new, true⟩
      else none
    | _ => none
  | _ => none

/-- `skip` bytes are left out; then occurrences are replaced, up to the end of the line if only the
first one counts and was met. `met` says whether one was met on this line. -/
def Substitution.from (t : Substitution) : Nat → Bool → List UInt8 → List UInt8
  | _, _, [] => []
  | skip + 1, met, _ :: rest => t.from skip met rest
  | 0, met, b :: rest =>
    if b = 10 then b :: t.from 0 false rest
    else if (t.everywhere || !met) && t.old.isPrefixOf (b :: rest) then
      t.new ++ t.from (t.old.length - 1) true rest
    else b :: t.from 0 met rest

/-- A substitution made in each line. -/
def Substitution.apply (t : Substitution) (bytes : List UInt8) : List UInt8 := t.from 0 false bytes

/-- A file that cannot be read. -/
def sedComplaint (name : Text) (cause : Cause) : Output :=
  .complaint 2 ("sed: can't read ".toList ++ name ++ ": ".toList ++ causeText cause)

/-- A substitution made in files, which are changed if `inPlace` holds. -/
def substituteAll (t : Substitution) (inPlace : Bool) : World → List Text → Output × World
  | w, [] => (.quiet 0, w)
  | w, name :: rest =>
    match w.read (pathOf name) with
    | .error cause =>
      let (more, w) := substituteAll t inPlace w rest
      ((sedComplaint name cause).append more, w)
    | .ok bytes =>
      if inPlace then
        substituteAll t inPlace ((w.write (pathOf name) (t.apply bytes)).toOption.getD w) rest
      else
        let (more, w) := substituteAll t inPlace w rest
        ((Output.ofBytes (t.apply bytes)).append more, w)

/-- The arguments of a substitution: whether files are changed, the script and the files. -/
def sedArguments : List Text → Bool × List Text
  | [] => (false, [])
  | a :: rest =>
    let (inPlace, others) := sedArguments rest
    if a = "-i".toList then (true, others)
    else if a = "-e".toList then (inPlace, others)
    else (inPlace, a :: others)

/-- A substitution carried out as its arguments say. -/
def substitute (w : World) (args : List Text) (input : List UInt8) : Output × World :=
  let (inPlace, words) := sedArguments args
  match words with
  | [] => (.complaint 1 "sed: no script".toList, w)
  | script :: files =>
    match Substitution.ofText? script with
    | none => (.complaint 1 "sed: unknown command".toList, w)
    | some t =>
      if files.isEmpty then (.ofBytes (t.apply input), w) else substituteAll t inPlace w files

/-! ## Ends -/

/-- The signals that end a script, with their numbers. -/
def signals : List (Text × Nat) :=
  [("HUP".toList, 1), ("INT".toList, 2), ("KILL".toList, 9), ("TERM".toList, 15)]

/-- The status after a signal given by name or number. -/
def signalStatus? (t : Text) : Option Status :=
  let bare := if "SIG".toList.isPrefixOf t then t.drop 3 else t
  (signals.find? fun e => e.1 = bare || Text.ofNat e.2 = bare).map fun e =>
    .signaled e.2 ("SIG".toList ++ e.1)

/-- How a script ends that signals itself. -/
def killStatus? : List Text → Option Status
  | [p] => if p = State.processId then signalStatus? "TERM".toList else none
  | ['-' :: signal, p] => if p = State.processId then signalStatus? signal else none
  | [['-', 's'], signal, p] => if p = State.processId then signalStatus? signal else none
  | _ => none

def isOption (t : Text) : Bool := t.head? = some '-' && t ≠ ['-']

/-- The first line of the input read into variables; it succeeds if the line has an end. -/
def readLine (s : State) (args : List Text) (input : List UInt8) : Output × State :=
  let line := ofBytes (input.takeWhile (· ≠ 10))
  let names := args.filter fun a => !isOption a
  let line := if args.any isOption then line else unescapedLine line
  (.quiet (if input.contains 10 then 0 else 1), assignWords s names line)

/-- A utility with its arguments and its input. -/
def Utility.run (u : Utility) (args : List Text) (input : List UInt8) (s : State) :
    Output × State :=
  match u with
  | .succeed => (.quiet 0, s)
  | .fail => (.quiet 1, s)
  | .exit =>
    let code := match args with
      | [] => s.status
      | a :: _ => (number? a).getD 2 % 256
    (.quiet code, { s with ended := some (.exited code) })
  | .kill =>
    match killStatus? args with
    | some status => (.quiet 0, { s with ended := some status })
    | none => (.complaint 1 "kill: no such process".toList, s)
  | .shift =>
    let n := ((args.head?).bind number?).getD 1
    if n ≤ s.arguments.length then (.quiet 0, { s with arguments := s.arguments.drop n })
    else (.complaint 2 "shift: can't shift that many".toList, s)
  | .echo =>
    let (words, ending) := match args with
      | ['-', 'n'] :: rest => (rest, [])
      | words => (words, toBytes ['\n'])
    (.ofBytes (unescaped (List.intercalate [' '] words) ++ ending), s)
  | .printf =>
    match args with
    | [] => (.complaint 2 "printf: usage: printf format [arg ...]".toList, s)
    | format :: args => (.ofBytes (formatted format args), s)
  | .cat =>
    let names := if args.isEmpty then [['-']] else args
    (names.foldl (fun o name => o.append (catOne s.world input name)) (.quiet 0), s)
  | .test bracket =>
    (testOutput s.world (if bracket then insideBrackets? args else some args), s)
  | .sed =>
    let (o, w) := substitute s.world args input
    (o, { s with world := w })
  | .rm =>
    let force := args.any fun a => isOption a && a.contains 'f'
    let (o, w) := removeAll force s.world (args.filter fun a => !isOption a)
    (o, { s with world := w })
  | .mkdir =>
    let (o, w) := makeDirectories s.world (args.filter fun a => !isOption a)
    (o, { s with world := w })
  | .ln =>
    match args with
    | [['-', 's'], target, name] =>
      let (o, w) := makeLink s.world target name
      (o, { s with world := w })
    | _ => (.complaint 1 "ln: only symbolic links are made".toList, s)
  | .read => readLine s args input

end RuleAudit.Shell
