import RuleAudit.Engine.Failure

/-!
# Engine processes

How the output of a finished process is judged. The first condition that fails decides: there is
output, it is a document, the document names no error, the process ended as after a scan, and its
results are findings.
-/

namespace RuleAudit

/-- How a process ended. -/
inductive Status where
  | exited (code : Nat)
  | signaled (number : Nat) (name : Text)
  deriving DecidableEq, Repr

/-- The wording of a status. -/
def Status.text : Status → Text
  | .exited code => "exit status: ".toList ++ Text.ofNat code
  | .signaled number name => "signal: ".toList ++ Text.ofNat number ++ " (".toList ++ name ++ [')']

/-- Whether the process ended as after a completed scan, with or without findings. -/
def Status.isComplete : Status → Bool
  | .exited code => code == 0 || code == 1
  | .signaled .. => false

/-- A finished process. -/
structure Finished where
  status : Status
  stdout : List UInt8
  stderr : List UInt8
  deriving DecidableEq, Repr

namespace Finished

/-- The message for a run that has errors or an unexpected status. -/
def complaint (errors : List Text) (stderr : Text) : Text :=
  if !errors.isEmpty then List.intercalate "; ".toList errors
  else if !stderr.isEmpty then stderr
  else "no error details".toList

/-- The findings of a document that a process wrote. -/
def scanDocument (p : Finished) (raw : Json) : Except EngineError Scan :=
  let errors := blockingErrors raw
  if !errors.isEmpty || !p.status.isComplete then
    .error (.engine p.status.text
      (complaint errors (Text.trim (Utf8.decodeLossy p.stderr))) raw)
  else
    match Scan.ofDocument raw with
    | .ok scan => .ok scan
    | .error fault => .error (.malformed fault.message)

/-- The findings of a finished process. -/
def scan (p : Finished) : Except EngineError Scan :=
  let out := Utf8.decodeLossy p.stdout
  if (Text.trim out).isEmpty then
    .error (.noOutput p.status.text (Text.trim (Utf8.decodeLossy p.stderr)))
  else
    match Json.read out with
    | .error e => .error (.unreadable e)
    | .ok raw => p.scanDocument raw

end Finished

end RuleAudit
