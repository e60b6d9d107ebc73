import RuleAudit.Archive.Gzip
import RuleAudit.Archive.Tar
import RuleAudit.Files.World
import RuleAudit.Json.Printer
import RuleAudit.Run.Failure

/-!
# Saved engine outputs

The documents of a run are saved as one text and as a packed archive of that text.
-/

namespace RuleAudit

namespace Outputs

def textName : Text := "ruletest_runs_output.json".toList

def archiveName : Text := "ruletest_runs_output.tar.gz".toList

/-- The text of some documents, as bytes. -/
def body (docs : List Json) : List UInt8 := Utf8.encode (Json.array docs).pretty

/-- The archive of some documents before it is packed. -/
def tar (docs : List Json) : List UInt8 := Tar.ofFile textName (body docs)

end Outputs

/-- The documents written into a directory. The path of the archive is returned; if the second file
cannot be written, the first one stays. -/
def World.writeOutputs (w : World) (docs : List Json) (dir : Path) :
    Except RunError Path × World :=
  let textPath := dir.join ⟨Outputs.textName⟩
  let archivePath := dir.join ⟨Outputs.archiveName⟩
  match w.write textPath (Outputs.body docs) with
  | .error cause => (.error (.file textPath cause), w)
  | .ok w =>
    match w.write archivePath (Gzip.wrap (Outputs.tar docs)) with
    | .error cause => (.error (.file archivePath cause), w)
    | .ok w => (.ok archivePath, w)

end RuleAudit
