import RuleAudit.Proofs.Diff.Changes
import RuleAudit.Proofs.Text.Numbers

/-!
# Differences as patches

The difference of two texts shows the changes between their lines, each under its place and size in both
texts, and nothing else. There is none exactly when the texts are equal.
-/

namespace RuleAudit

/-! ## Ranges -/

/-- How so many lines after so many others are written. -/
inductive RangeText : Nat → Nat → Text → Prop where
  /-- No line: the number of lines before the gap. -/
  | gap (before : Nat) : RangeText before 0 (Text.ofNat before ++ [',', '0'])
  | line (before : Nat) : RangeText before 1 (Text.ofNat (before + 1))
  | lines (before : Nat) {length : Nat} (h : 2 ≤ length) :
      RangeText before length (Text.ofNat (before + 1) ++ ',' :: Text.ofNat length)

namespace RangeText

theorem ofNat_comma_inj {n n' m m' : Nat}
    (h : Text.ofNat n ++ ',' :: Text.ofNat m = Text.ofNat n' ++ ',' :: Text.ofNat m') :
    n = n' ∧ m = m' := by
  obtain ⟨hfirst, hsecond⟩ := Text.ofNat_append_inj (by decide) h
  exact ⟨hfirst, Text.ofNat_injective hsecond⟩

theorem ofNat_ne_comma (k n m : Nat) : Text.ofNat k ≠ Text.ofNat n ++ ',' :: Text.ofNat m := by
  intro h
  exact Text.not_mem_ofNat (by decide) k (h ▸ List.mem_append_right _ List.mem_cons_self)

/-- **A written range** has one reading. -/
theorem eq_of_same_text {before before' length length' : Nat} {s : Text}
    (h : RangeText before length s) (h' : RangeText before' length' s) :
    before = before' ∧ length = length' := by
  have hzero : ['0'] = Text.ofNat 0 := rfl
  cases h with
  | gap =>
    rw [hzero] at h'
    generalize hs : Text.ofNat before ++ ',' :: Text.ofNat 0 = s at h'
    cases h' with
    | gap => exact ⟨(ofNat_comma_inj (hzero ▸ hs)).1, rfl⟩
    | line => exact absurd hs.symm (ofNat_ne_comma _ _ _)
    | lines hlong => have := (ofNat_comma_inj hs).2; omega
  | line =>
    generalize hs : Text.ofNat (before + 1) = s at h'
    cases h' with
    | gap => exact absurd (hzero ▸ hs) (ofNat_ne_comma _ _ _)
    | line => exact ⟨Nat.succ.inj (Text.ofNat_injective hs), rfl⟩
    | lines hlong => exact absurd hs (ofNat_ne_comma _ _ _)
  | lines hlong =>
    generalize hs : Text.ofNat (before + 1) ++ ',' :: Text.ofNat length = s at h'
    cases h' with
    | gap => have := (ofNat_comma_inj (hzero ▸ hs)).2; omega
    | line => exact absurd hs.symm (ofNat_ne_comma _ _ _)
    | lines hlong' =>
      obtain ⟨hbefore, hlength⟩ := ofNat_comma_inj hs
      exact ⟨Nat.succ.inj hbefore, hlength⟩

end RangeText

theorem Hunk.rangeText_range (before length : Nat) :
    RangeText before length (Hunk.range before length) := by
  match length with
  | 0 => exact .gap before
  | 1 => exact .line before
  | length + 2 => exact .lines before (by omega)

/-! ## Lines that show changes -/

/-- The lines that show some changes one after the other, when these lines of the old and of the new text
stand before the first of them. -/
inductive Shows : List Text → List Text → List (Replacement Text) → List Text → Prop where
  | nil (old new : List Text) : Shows old new [] []
  | cons {old new : List Text} {c : Replacement Text} {later : List (Replacement Text)}
      {oldRange newRange : Text} {body : List Text}
      (hold : RangeText old.length c.removed.length oldRange)
      (hnew : RangeText new.length c.inserted.length newRange)
      (hlater : Shows (old ++ c.old) (new ++ c.new) later body) :
      Shows old new (c :: later)
        (("@@ -".toList ++ oldRange ++ " +".toList ++ newRange ++ " @@".toList) ::
          c.removed.map (fun line => Text.trim ('-' :: line)) ++
          c.inserted.map (fun line => Text.trim ('+' :: line)) ++ body)

/-- The regions of some changes show them. -/
theorem shows_ofChanges (old new : List Text) (changes : List (Replacement Text)) :
    Shows old new changes
      ((Hunk.ofChanges old.length new.length changes).flatMap Hunk.render) := by
  induction changes generalizing old new with
  | nil => exact .nil old new
  | cons c later ih =>
    have hlater := ih (old ++ c.old) (new ++ c.new)
    rw [List.length_append, List.length_append] at hlater
    exact .cons (Hunk.rangeText_range _ _) (Hunk.rangeText_range _ _) hlater

/-! ## Differences -/

/-- Nothing is shown for equal texts. -/
theorem diffLines_self (s oldLabel newLabel : Text) : diffLines s s oldLabel newLabel = [] := by
  have hnone : Hunk.ofScript (Edit.script (Text.linesKept s) (Text.linesKept s)) (Text.linesKept s)
      (Text.linesKept s) = [] := by
    rw [Edit.script_self, Hunk.ofScript, Hunk.gather_replicate_keep]
    rfl
  simp only [diffLines, hnone]

/-- What is shown for different texts. -/
theorem diffLines_of_ne {old new : Text} (hne : old ≠ new) (oldLabel newLabel : Text) :
    ∃ first changes body, Decomposes (Text.linesKept old) (Text.linesKept new) first changes ∧
      changes ≠ [] ∧ Shows first first changes body ∧
      diffLines old new oldLabel newLabel =
        Text.trim ("--- ".toList ++ oldLabel) :: Text.trim ("+++ ".toList ++ newLabel) :: body := by
  obtain ⟨first, changes, hlines, hhunks⟩ :=
    Hunk.exists_ofScript_eq (Edit.turns_script (Text.linesKept old) (Text.linesKept new))
  have hchanges : changes ≠ [] := by
    rintro rfl
    -- Without a change both texts are the first stretch.
    have hsame : Text.linesKept old = Text.linesKept new := hlines.old_eq.trans hlines.new_eq.symm
    apply hne
    rw [← Text.flatten_linesKept old, hsame, Text.flatten_linesKept]
  refine ⟨first, changes, _, hlines, hchanges, shows_ofChanges first first changes, ?_⟩
  simp only [diffLines, hhunks]
  split
  next hnone => exact absurd (Hunk.ofChanges_eq_nil_iff.1 hnone) hchanges
  next => rfl

/-- Nothing is shown for equal texts only. -/
theorem diffLines_eq_nil_iff {old new oldLabel newLabel : Text} :
    diffLines old new oldLabel newLabel = [] ↔ old = new := by
  constructor
  · intro hempty
    by_contra hne
    obtain ⟨first, changes, body, -, -, -, hdiff⟩ := diffLines_of_ne hne oldLabel newLabel
    simp [hdiff] at hempty
  · rintro rfl
    exact diffLines_self old oldLabel newLabel

/-- **The difference of two texts** is a patch from the one to the other. It is empty exactly when the
texts are equal. Otherwise the lines of the two texts fall into common stretches and at least one change,
and after the two header lines come the changes in their order: the header of each is written with its
true place and size in both texts, which can be read off in one way only, then come the lines that go and
the lines that come. -/
theorem patch_of_diffLines (old new oldLabel newLabel : Text) :
    (diffLines old new oldLabel newLabel = [] ↔ old = new) ∧
    (old ≠ new → ∃ oldLines newLines first changes body,
      Text.HasLines old oldLines ∧ Text.HasLines new newLines ∧
      Decomposes oldLines newLines first changes ∧ changes ≠ [] ∧
      Shows first first changes body ∧
      diffLines old new oldLabel newLabel =
        Text.trim ("--- ".toList ++ oldLabel) :: Text.trim ("+++ ".toList ++ newLabel) :: body) ∧
    ∀ before length range, RangeText before length range → ∀ before' length',
      RangeText before' length' range → before = before' ∧ length = length' := by
  refine ⟨diffLines_eq_nil_iff, fun hne => ?_, fun _ _ _ h _ _ h' => h.eq_of_same_text h'⟩
  obtain ⟨first, changes, body, h⟩ := diffLines_of_ne hne oldLabel newLabel
  exact ⟨_, _, first, changes, body, Text.hasLines_linesKept old, Text.hasLines_linesKept new, h⟩

/-- Texts that differ in the last newline only differ in one line, which looks the same when trimmed. -/
theorem patch_of_missing_last_newline :
    "a\nb".toList ≠ "a\nb\n".toList ∧
    diffLines "a\nb".toList "a\nb\n".toList "old".toList "new".toList =
      ["--- old".toList, "+++ new".toList, "@@ -2 +2 @@".toList, "-b".toList, "+b".toList] ∧
    ∃ oldLines newLines first changes body,
      Text.HasLines "a\nb".toList oldLines ∧ Text.HasLines "a\nb\n".toList newLines ∧
      Decomposes oldLines newLines first changes ∧ changes ≠ [] ∧
      Shows first first changes body ∧
      diffLines "a\nb".toList "a\nb\n".toList "old".toList "new".toList =
        Text.trim ("--- ".toList ++ "old".toList) :: Text.trim ("+++ ".toList ++ "new".toList) ::
          body :=
  have hne : "a\nb".toList ≠ "a\nb\n".toList := by decide
  ⟨hne, by decide +kernel, (patch_of_diffLines _ _ _ _).2.1 hne⟩

end RuleAudit
