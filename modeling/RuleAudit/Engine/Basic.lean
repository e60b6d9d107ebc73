import RuleAudit.Engine.Failure
import RuleAudit.Engine.Invocation
import RuleAudit.Files.World

/-!
# Engines

An engine answers an invocation and may change files while it does. Whatever happens to one
invocation stays with it: errors and crashes become part of its outcome.

## Main definitions

* `Reply` — how an invocation ends.
* `Engine` — what an engine does with an invocation and the files.
* `Outcome` — an invocation's config with its message and its scan.
* `Session` — the files and the invocations so far; `Session.invoke` adds one.
-/

namespace RuleAudit

/-- How an invocation ends. -/
inductive Reply where
  | found (scan : Scan)
  | failed (error : EngineError)
  | crashed (reason : Option Text)

/-- What an engine makes of an invocation and of the files. -/
abbrev Engine := Invocation → World → Reply × World

/-- What is kept of an invocation. -/
structure Outcome where
  config : Path
  error : Option Text
  /-- The findings and the document; empty after trouble, except for a document that was
  written. -/
  scan : Scan

namespace Outcome

/-- What is kept of a reply. -/
def ofReply (config : Path) : Reply → Outcome
  | .found scan => ⟨config, none, scan⟩
  | .failed e => ⟨config, some e.message, ⟨[], e.document?.getD .null⟩⟩
  | .crashed reason => ⟨config, some (reason.getD "engine invocation panicked".toList), .empty⟩

/-- Whether the invocation did not end well. -/
def isError (o : Outcome) : Bool := o.error.isSome

end Outcome

/-- The files, and the invocations that were made so far. -/
structure Session where
  world : World
  asked : List Invocation

namespace Session

/-- A session without invocations. -/
def start (w : World) : Session := ⟨w, []⟩

def invoke (s : Session) (engine : Engine) (i : Invocation) : Outcome × Session :=
  let (reply, w) := engine i s.world
  (Outcome.ofReply i.config reply, ⟨w, s.asked ++ [i]⟩)

end Session

end RuleAudit
