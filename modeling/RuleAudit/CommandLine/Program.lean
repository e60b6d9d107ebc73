import RuleAudit.Archive.Outputs
import RuleAudit.CommandLine.Reading
import RuleAudit.Report.Document
import RuleAudit.Report.Summary
import RuleAudit.Run.Audit

/-!
# The program

What the program prints, leaves behind and ends with, as a function of its words and of the files
around it. The engine is a parameter: how a program of that name answers.
-/

namespace RuleAudit

/-- What a program prints, and how it ends. -/
structure Printed where
  code : ExitCode
  stdout : Text
  stderr : Text
  deriving DecidableEq, Repr

namespace Printed

def programName : Text := "ruletest".toList

def versionLine : Text := programName ++ " 0.1.0\n".toList

/-- How the program is called. -/
def usage : Text :=
  "Usage: ".toList ++ programName ++ " [OPTIONS] <TARGET>\n".toList

def helpText : Text :=
  "Verify analysis rules against annotated test fixtures\n\n".toList ++ usage ++
    ("\nOptions:\n" ++
      "      --config <CONFIG>                Rule config file or directory\n" ++
      "      --strict                         Fail when any config produces an engine error\n" ++
      "      --json                           Print the full report as JSON\n" ++
      "      --deep                           Pass --deep through to the engine\n" ++
      "      --optimizations <OPTIMIZATIONS>  Engine optimization level: none or all\n" ++
      "      --save-archive                   Save raw engine output\n" ++
      "      --no-save-archive                Do not save raw engine output\n" ++
      "      --engine <ENGINE>                Engine executable\n" ++
      "      --jobs <JOBS>                    Parallel engine invocations\n" ++
      "  -v, --verbose                        Enable debug logging on stderr\n" ++
      "  -h, --help                           Print help\n" ++
      "  -V, --version                        Print version\n").toList

/-- What is wrong with a command line. -/
def refusalText : Refusal → Text
  | .help | .version | .nothingGiven => []
  | .invalidValue => "error: a value is missing or not one of those allowed\n\n".toList
  | .invalidNumber => "error: a number was expected\n\n".toList
  | .unknownWord => "error: unexpected argument\n\n".toList
  | .repeated => "error: an argument cannot be used multiple times\n\n".toList
  | .missingTarget => "error: the target was not provided\n\n".toList
  | .needlessValue => "error: a flag takes no value\n\n".toList

/-- The answer to a command line that leads to no run. -/
def ofRefusal (r : Refusal) : Printed :=
  match r with
  | .help => ⟨r.exitCode, helpText, []⟩
  | .version => ⟨r.exitCode, versionLine, []⟩
  | .nothingGiven => ⟨r.exitCode, [], helpText⟩
  | other => ⟨r.exitCode, [], refusalText other ++ usage⟩

/-- A message after a label. -/
def message (colour : Bool) (c : Colour) (label body : Text) : Text :=
  painted colour c label ++ ' ' :: body ++ ['\n']

/-- The line of a file whose rule ids differ. -/
def mismatchLine (m : Mismatch) : Text :=
  '\t' :: m.file.display ++ ": annotated but not reported=".toList ++
    Text.quotedList m.annotatedOnly ++ " reported but not annotated=".toList ++
    Text.quotedList m.reportedOnly ++ ['\n']

/-- The lines that follow the message of an error. -/
def detailLines : RunError → Text
  | .ruleIdMismatch files => files.flatMap mismatchLine
  | _ => []

/-- The answer to a run that ends without a report. -/
def ofError (colour : Bool) (e : RunError) : Printed :=
  ⟨e.exitCode, [], message colour .red "error:".toList e.message ++ detailLines e⟩

/-- The note that the documents of the engine were not saved. -/
def unsavedNote (colour : Bool) (e : RunError) : Text :=
  message colour .yellow "note:".toList ("could not save output archive: ".toList ++ e.message)

end Printed

namespace World

/-- The documents of a run saved in the working directory, if they are to be; what cannot be saved
is noted. -/
def saveRun (w : World) (settings : EffectiveSettings) (colour : Bool) (run : Audit) :
    Text × World :=
  if settings.saveArchive then
    match w.writeOutputs run.outputs ⟨[dot]⟩ with
    | (.ok _, w) => ([], w)
    | (.error e, w) => (Printed.unsavedNote colour e, w)
  else ([], w)

/-- The answer to a run with a report. Documents are saved only beside a summary. -/
def printRun (w : World) (settings : EffectiveSettings) (colour : Bool) (run : Audit) :
    Printed × World :=
  let code := run.report.exitCode settings.strict
  if settings.json then (⟨code, run.report.document.pretty ++ ['\n'], []⟩, w)
  else
    let (note, w) := w.saveRun settings colour run
    (⟨code, run.report.summary run.fixes colour, note⟩, w)

/-- A run with settings, and its answer. -/
def runSettings (w : World) (engine : Text → Engine) (schedule : Schedule) (colour : Bool)
    (settings : EffectiveSettings) : Printed × World :=
  match w.rootsFor settings.target settings.config with
  | .error e => (Printed.ofError colour e, w)
  | .ok roots =>
    let (result, s) := (Session.start w).audit (engine settings.engine) schedule
      ⟨roots, settings.strict, settings.deep, settings.optimizations⟩
    match result with
    | .error e => (Printed.ofError colour e, s.world)
    | .ok run => s.world.printRun settings colour run

/-- A run of the program with some words. -/
def program (w : World) (engine : Text → Engine) (schedule : Schedule) (colour : Bool)
    (words : List Text) : Printed × World :=
  match CommandLine.read words with
  | .error r => (Printed.ofRefusal r, w)
  | .ok line =>
    w.runSettings engine schedule colour (w.effectiveSettings (line.settings w.home.path))

end World

end RuleAudit
