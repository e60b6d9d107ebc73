import RuleAudit.Path.Basic

/-!
# Bytes as characters

A shell knows nothing of encodings: scripts, arguments and output are bytes. A text of the shell therefore has
one character, below U+0100, for each byte, and every other part of the shell can treat it as a text.
-/

namespace RuleAudit.Shell

/-- The characters that stand for bytes. -/
def ofBytes (bytes : List UInt8) : Text := bytes.map fun b => Char.ofNat b.toNat

/-- The bytes that characters stand for. -/
def toBytes (t : Text) : List UInt8 := t.map fun c => c.toNat.toUInt8

/-- A word as a path. -/
def pathOf (t : Text) : Path := ⟨toBytes t⟩

end RuleAudit.Shell
