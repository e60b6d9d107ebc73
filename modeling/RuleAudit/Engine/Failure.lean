import RuleAudit.Engine.Document
import RuleAudit.Files.Tree

/-!
# Failures of an engine run

An engine that was asked for findings may fail to start, write no document, write one that cannot be read or holds
no findings, or end with errors of its own. Of these only the last leaves its document behind.
-/

namespace RuleAudit

/-- Why an engine run has no findings. -/
inductive EngineError where
  | spawn (program : Text) (cause : Cause)
  | noOutput (status stderr : Text)
  | unreadable (error : Json.ReadError)
  | malformed (message : Text)
  /-- The engine ended with errors, or in another way than after a scan. -/
  | engine (status message : Text) (raw : Json)

namespace EngineError

/-- The wording of an error. -/
def message : EngineError → Text
  | .spawn program cause =>
    "failed to start engine '".toList ++ program ++ "': ".toList ++ cause.message
  | .noOutput status stderr =>
    "engine exited with ".toList ++ status ++ " without JSON output: ".toList ++ stderr
  | .unreadable e => "engine output is not valid JSON: ".toList ++ e.message
  | .malformed m => "engine result is malformed: ".toList ++ m
  | .engine status m _ => "engine exited with ".toList ++ status ++ ": ".toList ++ m

/-- The document of an engine that wrote one before it failed. -/
def document? : EngineError → Option Json
  | .engine _ _ raw => some raw
  | _ => none

end EngineError

end RuleAudit
