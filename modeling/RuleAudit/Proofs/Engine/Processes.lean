import RuleAudit.Engine.Process
import RuleAudit.Proofs.Engine.Findings
import RuleAudit.Proofs.Text.Trimming

/-!
# How a finished process is judged

Four conditions stand between the output of a process and its findings. The first that fails names the error,
so a document with errors is never taken for one without findings, and findings are never lost.
-/

namespace RuleAudit

namespace Json

/-! ## Errors in a document -/

/-- The entries of the errors of a document; none if they are no array. -/
def errorEntries (raw : Json) : List Json :=
  match raw.get? "errors".toList with
  | some (.array entries) => entries
  | _ => []

/-- An entry spoils a run unless its level is that of a warning or a notice. -/
def Blocks (entry : Json) : Prop :=
  entry.get? "level".toList ≠ some (.string "warn".toList) ∧
    entry.get? "level".toList ≠ some (.string "info".toList)

/-- The text of an entry: its kind and its message, one of them if the other is no text, or all of it. -/
inductive Says (entry : Json) : Text → Prop where
  | both {kind message : Text} : entry.get? "type".toList = some (.string kind) →
      entry.get? "message".toList = some (.string message) →
      entry.Says (kind ++ ": ".toList ++ message)
  | message {message : Text} : (∀ kind, entry.get? "type".toList ≠ some (.string kind)) →
      entry.get? "message".toList = some (.string message) → entry.Says message
  | kind {kind : Text} : entry.get? "type".toList = some (.string kind) →
      (∀ message, entry.get? "message".toList ≠ some (.string message)) → entry.Says kind
  | whole : (∀ kind, entry.get? "type".toList ≠ some (.string kind)) →
      (∀ message, entry.get? "message".toList ≠ some (.string message)) → entry.Says entry.compact

theorem bind_text?_eq_some_iff {member : Option Json} {s : Text} :
    member.bind text? = some s ↔ member = some (.string s) := by
  cases member with
  | none => simp
  | some v => cases v <;> simp [text?]

theorem bind_text?_eq_none_iff {member : Option Json} :
    member.bind text? = none ↔ ∀ s, member ≠ some (.string s) := by
  simp only [Option.eq_none_iff_forall_ne_some, ne_eq, bind_text?_eq_some_iff]

theorem not_isPassing_iff {entry : Json} : (!isPassing entry) = true ↔ entry.Blocks := by
  rw [Blocks, isPassing, ne_eq, ne_eq, ← bind_text?_eq_some_iff, ← bind_text?_eq_some_iff]
  generalize (entry.get? "level".toList).bind text? = level
  cases level with
  | none => simp
  | some level => simp only [Bool.not_eq_true', Bool.or_eq_false_iff, beq_eq_false_iff_ne, ne_eq,
      Option.some.injEq]

instance : DecidablePred Blocks := fun _ => decidable_of_iff _ not_isPassing_iff

/-- The entries that spoil a run, in the order of the document. -/
def blockingEntries (raw : Json) : List Json := raw.errorEntries.filter (Blocks ·)

/-- The text of an entry is what its messages are made of. -/
theorem errorText_eq_iff {entry : Json} {text : Text} :
    errorText entry = text ↔ entry.Says text := by
  constructor
  · rintro rfl
    cases hkind : (entry.get? "type".toList).bind text? with
    | some kind =>
      cases hmessage : (entry.get? "message".toList).bind text? with
      | some message =>
        simp only [errorText, hkind, hmessage]
        exact .both (bind_text?_eq_some_iff.1 hkind) (bind_text?_eq_some_iff.1 hmessage)
      | none =>
        simp only [errorText, hkind, hmessage]
        exact .kind (bind_text?_eq_some_iff.1 hkind) (bind_text?_eq_none_iff.1 hmessage)
    | none =>
      cases hmessage : (entry.get? "message".toList).bind text? with
      | some message =>
        simp only [errorText, hkind, hmessage]
        exact .message (bind_text?_eq_none_iff.1 hkind) (bind_text?_eq_some_iff.1 hmessage)
      | none =>
        simp only [errorText, hkind, hmessage]
        exact .whole (bind_text?_eq_none_iff.1 hkind) (bind_text?_eq_none_iff.1 hmessage)
  · intro h
    cases h with
    | both hkind hmessage =>
      simp only [errorText, bind_text?_eq_some_iff.2 hkind, bind_text?_eq_some_iff.2 hmessage]
    | message hkind hmessage =>
      simp only [errorText, bind_text?_eq_none_iff.2 hkind, bind_text?_eq_some_iff.2 hmessage]
    | kind hkind hmessage =>
      simp only [errorText, bind_text?_eq_some_iff.2 hkind, bind_text?_eq_none_iff.2 hmessage]
    | whole hkind hmessage =>
      simp only [errorText, bind_text?_eq_none_iff.2 hkind, bind_text?_eq_none_iff.2 hmessage]

theorem blockingErrors_eq (raw : Json) : blockingErrors raw = raw.blockingEntries.map errorText := by
  have hfilter (entries : List Json) :
      entries.filter (fun e => !isPassing e) = entries.filter (Blocks ·) := by
    refine List.filter_congr fun entry _ => ?_
    rw [Bool.eq_iff_iff, not_isPassing_iff, decide_eq_true_iff]
  rw [blockingErrors, blockingEntries, errorEntries]
  cases raw.get? "errors".toList with
  | none => rfl
  | some errors =>
    cases errors with
    | array entries => exact congrArg (List.map errorText) (hfilter entries)
    | _ => rfl

/-- **The messages of a document** are the texts of the entries that spoil a run, in their order. -/
theorem blockingErrors_eq_iff {raw : Json} {texts : List Text} :
    blockingErrors raw = texts ↔ List.Forall₂ Says raw.blockingEntries texts := by
  have hsays : Says = fun entry text => errorText entry = text := by
    funext entry text
    exact propext errorText_eq_iff.symm
  rw [blockingErrors_eq, hsays, ← List.forall₂_map_left_iff, List.forall₂_eq_eq_eq]

theorem blockingEntries_eq_nil_iff {raw : Json} :
    raw.blockingEntries = [] ↔ ∀ entry ∈ raw.errorEntries, ¬ entry.Blocks := by
  simp [blockingEntries, List.filter_eq_nil_iff]

end Json

namespace Finished

/-- The process wrote nothing but blanks. -/
def Silent (p : Finished) : Prop := Text.Blank (Utf8.decodeLossy p.stdout)

/-- The process wrote a document. -/
def Writes (p : Finished) (raw : Json) : Prop := Json.read (Utf8.decodeLossy p.stdout) = .ok raw

/-- The process ended as after a completed scan. -/
def Completes (p : Finished) : Prop := p.status = .exited 0 ∨ p.status = .exited 1

/-- The message of a run that has errors or an unexpected status: the texts of the errors, or else what was
written about trouble, or else that there are no details. -/
inductive Complains (p : Finished) (raw : Json) : Text → Prop where
  | errors {texts : List Text} : raw.blockingEntries ≠ [] →
      List.Forall₂ Json.Says raw.blockingEntries texts →
      p.Complains raw (List.intercalate "; ".toList texts)
  | trouble : raw.blockingEntries = [] → ¬ Text.Blank (Utf8.decodeLossy p.stderr) →
      p.Complains raw (Text.trim (Utf8.decodeLossy p.stderr))
  | nothing : raw.blockingEntries = [] → Text.Blank (Utf8.decodeLossy p.stderr) →
      p.Complains raw "no error details".toList

variable {p : Finished}

theorem isComplete_iff : p.status.isComplete = true ↔ p.Completes := by
  rw [Completes]
  cases p.status with
  | exited code => simp [Status.isComplete]
  | signaled number name => simp [Status.isComplete]

/-- The message of a run that is not judged by its results. -/
theorem complaint_eq_iff {raw : Json} {message : Text} :
    complaint (blockingErrors raw) (Text.trim (Utf8.decodeLossy p.stderr)) = message ↔
      p.Complains raw message := by
  have hempty : blockingErrors raw = [] ↔ raw.blockingEntries = [] := by
    rw [Json.blockingErrors_eq, List.map_eq_nil_iff]
  rw [complaint]
  by_cases hentries : raw.blockingEntries = []
  · rw [if_neg (by simp [hempty.2 hentries])]
    by_cases hstderr : Text.Blank (Utf8.decodeLossy p.stderr)
    · rw [if_neg (by simp [Text.trim_eq_nil_iff.2 hstderr])]
      constructor
      · rintro rfl
        exact .nothing hentries hstderr
      · intro h
        cases h with
        | errors hne => exact absurd hentries hne
        | trouble _ hne => exact absurd hstderr hne
        | nothing => rfl
    · rw [if_pos (by simpa [Text.trim_eq_nil_iff] using hstderr)]
      constructor
      · rintro rfl
        exact .trouble hentries hstderr
      · intro h
        cases h with
        | errors hne => exact absurd hentries hne
        | trouble => rfl
        | nothing _ hblank => exact absurd hblank hstderr
  · rw [if_pos (by simpa [hempty] using hentries)]
    constructor
    · rintro rfl
      exact .errors hentries (Json.blockingErrors_eq_iff.1 rfl)
    · intro h
      cases h with
      | errors _ htexts => rw [Json.blockingErrors_eq_iff.2 htexts]
      | trouble hnil => exact absurd hnil hentries
      | nothing hnil => exact absurd hnil hentries

/-! ## One condition after the other -/

theorem scan_of_silent (h : p.Silent) : p.scan =
    .error (.noOutput p.status.text (Text.trim (Utf8.decodeLossy p.stderr))) := by
  rw [scan]
  exact if_pos (List.isEmpty_iff.2 (Text.trim_eq_nil_iff.2 h))

theorem scan_of_not_silent (h : ¬ p.Silent) : p.scan =
    match Json.read (Utf8.decodeLossy p.stdout) with
    | .error e => .error (.unreadable e)
    | .ok raw => p.scanDocument raw := by
  rw [scan]
  exact if_neg fun hempty => h (Text.trim_eq_nil_iff.1 (List.isEmpty_iff.1 hempty))

/-- The document of a process spoils its run, or the process did not come to its end. -/
def Fails (p : Finished) (raw : Json) : Prop :=
  (∃ entry ∈ raw.errorEntries, entry.Blocks) ∨ ¬ p.Completes

theorem not_fails_iff {raw : Json} :
    ¬ p.Fails raw ↔ (∀ entry ∈ raw.errorEntries, ¬ entry.Blocks) ∧ p.Completes := by
  simp [Fails]

/-- The run is not judged by its results exactly if it fails. -/
theorem guard_iff_fails {raw : Json} :
    (!(blockingErrors raw).isEmpty || !p.status.isComplete) = true ↔ p.Fails raw := by
  rw [Bool.or_eq_true, Bool.not_eq_true', Bool.not_eq_true', Json.blockingErrors_eq, Fails,
    ← isComplete_iff, Bool.not_eq_true, List.isEmpty_eq_false_iff, ne_eq, List.map_eq_nil_iff,
    Json.blockingEntries_eq_nil_iff]
  simp only [not_forall, not_not, exists_prop]

theorem scanDocument_of_fails {raw : Json} (h : p.Fails raw) : p.scanDocument raw =
    .error (.engine p.status.text
      (complaint (blockingErrors raw) (Text.trim (Utf8.decodeLossy p.stderr))) raw) := by
  rw [scanDocument]
  exact if_pos (guard_iff_fails.2 h)

theorem scanDocument_of_not_fails {raw : Json} (h : ¬ p.Fails raw) : p.scanDocument raw =
    match Scan.ofDocument raw with
    | .ok scan => .ok scan
    | .error fault => .error (.malformed fault.message) := by
  rw [scanDocument]
  exact if_neg (mt guard_iff_fails.1 h)

/-- What the scan of a regular document gives, if the run does not fail. -/
theorem scanDocument_eq_ok_iff {raw : Json} (hraw : raw.Regular) {scan : Scan} :
    p.scanDocument raw = .ok scan ↔ ¬ p.Fails raw ∧ scan.raw = raw ∧
      raw.Reports scan.findings := by
  by_cases hfails : p.Fails raw
  · simp [scanDocument_of_fails hfails, hfails]
  · rw [scanDocument_of_not_fails hfails, ← Scan.ofDocument_eq_ok_iff hraw]
    cases Scan.ofDocument raw with
    | ok found => simp [hfails]
    | error fault => simp

theorem scanDocument_eq_engine_iff {raw raw' : Json} {status message : Text} :
    p.scanDocument raw = .error (.engine status message raw') ↔
      p.Fails raw ∧ status = p.status.text ∧ p.Complains raw message ∧ raw' = raw := by
  by_cases hfails : p.Fails raw
  · rw [scanDocument_of_fails hfails, Except.error.injEq, EngineError.engine.injEq, complaint_eq_iff]
    simp only [hfails, true_and, eq_comm]
  · rw [scanDocument_of_not_fails hfails]
    cases Scan.ofDocument raw <;> simp [hfails]

theorem scanDocument_eq_malformed_iff {raw : Json} (hraw : raw.Regular) :
    (∃ message, p.scanDocument raw = .error (.malformed message)) ↔
      ¬ p.Fails raw ∧ ∀ findings, ¬ raw.Reports findings := by
  by_cases hfails : p.Fails raw
  · simp [scanDocument_of_fails hfails, hfails]
  · rw [scanDocument_of_not_fails hfails]
    cases hread : Scan.ofDocument raw with
    | ok found =>
      have hreports := ((Scan.ofDocument_eq_ok_iff hraw).1 hread).2
      simp only [reduceCtorEq, exists_const, false_iff, not_and, not_forall, not_not]
      exact fun _ => ⟨_, hreports⟩
    | error fault =>
      simp only [Except.error.injEq, EngineError.malformed.injEq, exists_eq', true_iff]
      refine ⟨hfails, fun findings hreports => ?_⟩
      have hok : Scan.ofDocument raw = .ok ⟨findings, raw⟩ :=
        (Scan.ofDocument_eq_ok_iff hraw).2 ⟨rfl, hreports⟩
      simp [hread] at hok

/-- A document has come that far, so no earlier condition failed. -/
theorem scanDocument_ne (raw : Json) :
    (∀ program cause, p.scanDocument raw ≠ .error (.spawn program cause)) ∧
    (∀ status stderr, p.scanDocument raw ≠ .error (.noOutput status stderr)) ∧
    ∀ e, p.scanDocument raw ≠ .error (.unreadable e) := by
  by_cases hfails : p.Fails raw
  · simp [scanDocument_of_fails hfails]
  · rw [scanDocument_of_not_fails hfails]
    cases Scan.ofDocument raw <;> simp

/-- **Each process is judged by the first condition that fails**: that it wrote something, that this is a
document, that the document names no error and the process completed, and that it reports findings. -/
theorem classification_of_scan (p : Finished) :
    (∀ scan, p.scan = .ok scan ↔ ¬ p.Silent ∧ p.Writes scan.raw ∧
      (∀ entry ∈ scan.raw.errorEntries, ¬ entry.Blocks) ∧ p.Completes ∧
      scan.raw.Reports scan.findings) ∧
    (∀ status stderr, p.scan = .error (.noOutput status stderr) ↔ p.Silent ∧
      status = p.status.text ∧ stderr = Text.trim (Utf8.decodeLossy p.stderr)) ∧
    (∀ e, p.scan = .error (.unreadable e) ↔ ¬ p.Silent ∧
      Json.read (Utf8.decodeLossy p.stdout) = .error e) ∧
    (∀ status message raw, p.scan = .error (.engine status message raw) ↔ ¬ p.Silent ∧
      p.Writes raw ∧ ((∃ entry ∈ raw.errorEntries, entry.Blocks) ∨ ¬ p.Completes) ∧
      status = p.status.text ∧ p.Complains raw message) ∧
    ((∃ message, p.scan = .error (.malformed message)) ↔ ¬ p.Silent ∧ ∃ raw, p.Writes raw ∧
      (∀ entry ∈ raw.errorEntries, ¬ entry.Blocks) ∧ p.Completes ∧
      ∀ findings, ¬ raw.Reports findings) ∧
    ∀ program cause, p.scan ≠ .error (.spawn program cause) := by
  by_cases hsilent : p.Silent
  · rw [scan_of_silent hsilent]
    simp [hsilent, eq_comm]
  rw [scan_of_not_silent hsilent]
  cases hread : Json.read (Utf8.decodeLossy p.stdout) with
  | error e =>
    have hwrites (raw : Json) : ¬ p.Writes raw := by
      simp [Writes, hread]
    simp [hsilent, hwrites]
  | ok raw =>
    have hraw : raw.Regular := Json.regular_of_read hread
    have hwrites (raw' : Json) : p.Writes raw' ↔ raw = raw' := by
      rw [Writes, hread, Except.ok.injEq]
    obtain ⟨hspawn, hnoOutput, hunreadable⟩ := scanDocument_ne raw
    refine ⟨fun scan => ?_, fun status stderr => ?_, fun e => ?_, fun status message raw' => ?_, ?_,
      hspawn⟩
    · dsimp only
      rw [scanDocument_eq_ok_iff hraw, not_fails_iff, hwrites]
      constructor
      · rintro ⟨⟨hentries, hcompletes⟩, rfl, hreports⟩
        exact ⟨hsilent, rfl, hentries, hcompletes, hreports⟩
      · rintro ⟨-, rfl, hentries, hcompletes, hreports⟩
        exact ⟨⟨hentries, hcompletes⟩, rfl, hreports⟩
    · simp [hsilent, hnoOutput]
    · simp [hunreadable]
    · dsimp only
      rw [scanDocument_eq_engine_iff, hwrites]
      constructor
      · rintro ⟨hfails, hstatus, hmessage, rfl⟩
        exact ⟨hsilent, rfl, hfails, hstatus, hmessage⟩
      · rintro ⟨-, rfl, hfails, hstatus, hmessage⟩
        exact ⟨hfails, hstatus, hmessage, rfl⟩
    · dsimp only
      rw [scanDocument_eq_malformed_iff hraw, not_fails_iff]
      constructor
      · rintro ⟨⟨hentries, hcompletes⟩, hreports⟩
        exact ⟨hsilent, raw, hread, hentries, hcompletes, hreports⟩
      · rintro ⟨-, raw', hraw', hentries, hcompletes, hreports⟩
        obtain rfl := (hwrites raw').1 hraw'
        exact ⟨⟨hentries, hcompletes⟩, hreports⟩

end Finished

end RuleAudit
