import Mathlib.Data.List.Basic
import RuleAudit.Fixing.Comparison
import RuleAudit.Proofs.Diff.Patch
import RuleAudit.Proofs.Text.Utf8

/-!
# Fixed files against golden files

A fix test passes when the texts of the two files are equal. Bytes that are no text are read leniently,
so on such bytes this says less than that the files are equal.
-/

namespace RuleAudit.World

theorem compareFixed_of_read {w : World} {copy golden : Path} {fixed wanted : List UInt8}
    (hcopy : w.read copy = .ok fixed) (hgolden : w.read golden = .ok wanted) :
    w.compareFixed copy golden = .ok
      (diffLines (Utf8.decodeLossy wanted) (Utf8.decodeLossy fixed) golden.display copy.display) := by
  simp only [compareFixed, readText, hcopy, hgolden]
  rfl

/-- **A fix test** on two files that can be read is decided, and it passes exactly when their bytes are
read as the same text. For a golden file that is the encoding of a text this means equal bytes, as far as
that text has no replacement character or the fixed file is an encoding, too. -/
theorem passed_of_fixed_file {w : World} {case : GoldenCase} {copy : Path}
    {fixed wanted : List UInt8} (hcopy : w.read copy = .ok fixed)
    (hgolden : w.read case.golden = .ok wanted) :
    ∃ diff, w.compareFixed copy case.golden = .ok diff ∧
      ((GoldenVerdict.mk case diff).passed = true ↔
        Utf8.decodeLossy fixed = Utf8.decodeLossy wanted) ∧
      ∀ s, wanted = Utf8.encode s → ('\uFFFD' ∉ s ∨ ∃ t, fixed = Utf8.encode t) →
        ((GoldenVerdict.mk case diff).passed = true ↔ fixed = wanted) := by
  refine ⟨_, compareFixed_of_read hcopy hgolden, ?_⟩
  have hpassed : (GoldenVerdict.mk case (diffLines (Utf8.decodeLossy wanted)
      (Utf8.decodeLossy fixed) case.golden.display copy.display)).passed = true ↔
      Utf8.decodeLossy fixed = Utf8.decodeLossy wanted := by
    rw [GoldenVerdict.passed, List.isEmpty_iff, diffLines_eq_nil_iff, eq_comm]
  refine ⟨hpassed, fun s hs hreadable => hpassed.trans ⟨fun hsame => ?_, fun hbytes => by rw [hbytes]⟩⟩
  subst hs
  rw [Utf8.decodeLossy_encode] at hsame
  rcases hreadable with hs | ⟨t, rfl⟩
  · exact Utf8.eq_encode_of_decodeLossy hsame hs
  · rw [← hsame, Utf8.decodeLossy_encode]

/-- A fixed file with one byte too many, which is no text, does not pass. -/
theorem not_passed_with_stray_byte :
    let wanted := Utf8.encode "x = 1\n".toList
    let fixed := wanted ++ [0xFF]
    let w : World :=
      { tree := Tree.ofTexts
          [(["a.py".toList], .file fixed false), (["b.py".toList], .file wanted false)]
        home := []
        scratch := Place.ofTexts ["tmp".toList] }
    let case : GoldenCase := ⟨⟨"/a.yaml".toList⟩, ⟨"/a.py".toList⟩, ⟨"/b.py".toList⟩⟩
    w.read ⟨"/a.py".toList⟩ = .ok fixed ∧ w.read case.golden = .ok wanted ∧
      '\uFFFD' ∉ "x = 1\n".toList ∧
      ∃ diff, w.compareFixed ⟨"/a.py".toList⟩ case.golden = .ok diff ∧
        (GoldenVerdict.mk case diff).passed = false := by
  intro wanted fixed w case
  have hcopy : w.read ⟨"/a.py".toList⟩ = .ok fixed := by decide +kernel
  have hgolden : w.read case.golden = .ok wanted := by decide +kernel
  have hplain : '\uFFFD' ∉ "x = 1\n".toList := by decide
  obtain ⟨diff, hdiff, -, hexact⟩ := passed_of_fixed_file hcopy hgolden
  refine ⟨hcopy, hgolden, hplain, diff, hdiff, ?_⟩
  rw [Bool.eq_false_iff, ne_eq, hexact _ rfl (.inl hplain)]
  decide

/-- Two different files of one byte that is no text: both are read as one replacement character. -/
theorem different_bytes_can_pass :
    let w : World :=
      { tree := Tree.ofTexts
          [(["a.py".toList], .file [0xFE] false), (["b.py".toList], .file [0xFF] false)]
        home := []
        scratch := Place.ofTexts ["tmp".toList] }
    let case : GoldenCase := ⟨⟨"/a.yaml".toList⟩, ⟨"/a.py".toList⟩, ⟨"/b.py".toList⟩⟩
    w.read ⟨"/a.py".toList⟩ = .ok [0xFE] ∧ w.read case.golden = .ok [0xFF] ∧
      ¬ ∃ diff, w.compareFixed ⟨"/a.py".toList⟩ case.golden = .ok diff ∧
        ((GoldenVerdict.mk case diff).passed = true ↔ ([0xFE] : List UInt8) = [0xFF]) := by
  intro w case
  have hdiff : w.compareFixed ⟨"/a.py".toList⟩ case.golden = .ok [] := by decide +kernel
  refine ⟨by decide +kernel, by decide +kernel, ?_⟩
  rintro ⟨diff, hdiff', hpassed⟩
  obtain rfl := Except.ok.inj (hdiff.symm.trans hdiff')
  exact absurd (hpassed.1 rfl) (by decide)

end RuleAudit.World
