import RuleAudit.Engine.Basic
import RuleAudit.Shell.Utility

/-!
# Running shell scripts as engines

A file that may be run and that names a shell in its first line is a program. What it writes is
judged as the output of an engine.
-/

namespace RuleAudit

namespace Shell

/-- A utility's result put where it goes. -/
def settleOutput (s : State) (t : Streams) (o : Output) : State :=
  { (s.deliver t.output o.bytes).deliver t.messages o.messages with status := o.status }

/-! ## The program above -/

/-- The file by which a script finds the program that started it. -/
def parentFile : Text := "/proc/".toList ++ State.parentId ++ "/exe".toList

/-- What a command sees of a finished program. -/
def Output.ofFinished (p : Finished) : Output :=
  let status := match p.status with
    | .exited code => code
    | .signaled number _ => 128 + number
  ⟨p.stdout, p.stderr, status⟩

/-- The program that started a script, started by it. It takes texts only. -/
def runParent (s : State) (parent : Program) (args : List Text) : Output × State :=
  match args.mapM fun a => Utf8.decode? (toBytes a) with
  | none => (.complaint 2 "error: invalid UTF-8 was detected in one or more arguments".toList, s)
  | some words =>
    let (p, w) := parent s.world words
    (.ofFinished p, { s with world := w })

/-! ## Commands -/

/-- A simple command carried out. A command whose name means nothing fails with 127. -/
def runSimple (c : SimpleCommand) (s : State) : State :=
  match s.words c.words with
  | [] => { s.assignAll c.assignments with status := 0 }
  | name :: args =>
    match s.open? c.redirects with
    | none => settleOutput s State.ordinary (.complaint 2 "cannot open a file".toList)
    | some (s, t) =>
      match Utility.ofName? name with
      | some u =>
        let (o, s) := u.run args t.input s
        settleOutput s t o
      | none =>
        match s.parent with
        | some parent =>
          if name = parentFile then
            let (o, s) := runParent s parent args
            settleOutput s t o
          else settleOutput s t (.complaint 127 (name ++ ": not found".toList))
        | none => settleOutput s t (.complaint 127 (name ++ ": not found".toList))

/-- A step for each word, as long as the script has not ended. -/
def runEach (name : Text) (step : State → State) : List Text → State → State
  | [], s => s
  | word :: rest, s =>
    if s.ended.isSome then s else runEach name step rest (step (s.assign name word))

/-- A command carried out. After the end of the script nothing happens. -/
def run : Command → State → State
  | .skip, s => s
  | .simple c, s => if s.ended.isSome then s else runSimple c s
  | .seq a b, s => run b (run a s)
  | .both a b, s =>
    let s := run a s
    if s.status = 0 then run b s else s
  | .either a b, s =>
    let s := run a s
    if s.status = 0 then s else run b s
  | .negate c, s =>
    let s := run c s
    { s with status := if s.status = 0 then 1 else 0 }
  | .forEach name words body, s => runEach name (run body) (s.words words) { s with status := 0 }
  | .branch condition yes no, s =>
    let s := run condition s
    if s.status = 0 then run yes s else run no { s with status := 0 }

/-- What a script leaves behind. -/
def finished (s : State) : Finished × World :=
  (⟨s.ended.getD (.exited s.status), s.stdout, s.stderr⟩, s.world)

/-- A script run to its end. One that cannot be read does nothing. -/
def runScript (w : World) (parent : Option Program) (name script : Text) (args : List Text) :
    Finished × World :=
  let s := State.start w name args parent
  match Command.ofText? script with
  | some c => finished (run c s)
  | none => finished (settleOutput s State.ordinary (.complaint 2 "syntax error".toList))

/-! ## Programs -/

/-- The shells, by the names that a first line can give them. -/
def shells : List Text :=
  ["/bin/sh".toList, "/bin/dash".toList, "/bin/bash".toList, "/usr/bin/sh".toList,
    "/usr/bin/dash".toList, "/usr/bin/bash".toList, "/usr/bin/env sh".toList,
    "/usr/bin/env bash".toList, "/usr/bin/env dash".toList]

/-- The interpreter that the first line of a file names. -/
def interpreter? : Text → Option Text
  | '#' :: '!' :: rest => some (Text.trim (rest.takeWhile (· ≠ '\n')))
  | _ => none

/-- The utilities that are programs of their own. -/
def programs : List Text :=
  ["true".toList, "false".toList, "echo".toList, "printf".toList, "cat".toList, "test".toList,
    "sed".toList, "rm".toList]

/-- A utility run as a program. -/
def runUtility? (w : World) (name : Text) (args : List Text) : Option (Finished × World) :=
  if programs.contains name then
    (Utility.ofName? name).map fun u =>
      let (o, s) := u.run args [] (State.start w name args none)
      finished (settleOutput s State.ordinary o)
  else none

end Shell

/-- The file of a program run to its end, with arguments in the characters of the shell. -/
def World.startFile (w : World) (parent : Option Shell.Program) (program : Text)
    (args : List Text) : Except Cause (Finished × World) :=
  match w.locate ⟨program⟩ with
  | .error cause => .error cause
  | .ok (_, .file bytes true) =>
    let script := Shell.ofBytes bytes
    match Shell.interpreter? script with
    | none => .error .badFormat
    | some interpreter =>
      if Shell.shells.contains interpreter then
        .ok (Shell.runScript w parent (Shell.ofBytes (Utf8.encode program)) script args)
      else .error .notFound
  | .ok _ => .error .permissionDenied

/-- A program run to its end. A name without a slash is one of the programs that are always there;
any other name is the path of a file. -/
def World.start (w : World) (parent : Option Shell.Program) (program : Text)
    (args : List Text) : Except Cause (Finished × World) :=
  let args := args.map fun a => Shell.ofBytes (Utf8.encode a)
  if program.contains '/' then w.startFile parent program args
  else
    match Shell.runUtility? w (Shell.ofBytes (Utf8.encode program)) args with
    | some result => .ok result
    | none => .error .notFound

/-- The findings of a program that is asked what an invocation asks, and the files it leaves. -/
def World.runEngine (w : World) (parent : Option Shell.Program) (program : Text)
    (i : Invocation) : Except EngineError Scan × World :=
  match w.start parent program i.arguments with
  | .error cause => (.error (.spawn program cause), w)
  | .ok (p, w) => (p.scan, w)

/-- The engine that is a program; `parent` is the program that asks it. -/
def commandEngine (parent : Option Shell.Program) (program : Text) : Engine := fun i w =>
  match w.runEngine parent program i with
  | (.ok scan, w) => (.found scan, w)
  | (.error e, w) => (.failed e, w)

end RuleAudit
