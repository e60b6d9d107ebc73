import RuleAudit.Files.World
import RuleAudit.Yaml.Value

/-!
# Configs that declare fixes

A config is a document with a list of rules, and it declares fixes if one of them has `fix` or `fix-regex`. Whatever
is not of that shape declares none.
-/

namespace RuleAudit

/-- Whether a rule says how to fix what it finds. -/
def ruleDeclaresFix (rule : Yaml.Value) : Bool :=
  (rule.get? "fix".toList).isSome || (rule.get? "fix-regex".toList).isSome

/-- Whether some rule of a config says how to fix what it finds. A text that is no config has no
rules. -/
def declaresFix (text : Text) : Bool :=
  let rules := (Yaml.Value.ofText? text).bind fun doc => doc.get? "rules".toList
  match rules.bind Yaml.Value.items? with
  | some rules => rules.any ruleDeclaresFix
  | none => false

/-- Whether some rule of a config file says how to fix what it finds. The file has to be valid
UTF-8. -/
def World.declaresFix (w : World) (config : Path) : Bool :=
  match w.read config with
  | .ok bytes => (Utf8.decode? bytes).any RuleAudit.declaresFix
  | .error _ => false

end RuleAudit
