import RuleAudit.Proofs.Fixing.Verdicts

/-!
# Trouble with copies

Whatever an invocation ends with is kept as its outcome and disturbs no other config. What it does to its
copies is another matter: a verification ends with an error as soon as it comes to a copy that cannot be
read, so one copy that an invocation has removed costs the verdicts and the outcomes of all configs.
-/

namespace RuleAudit

namespace World

variable {w : World} {engine : Engine} {schedule : Schedule} {options : Options}
  {cases : List GoldenCase}

/-- **A copy can be read at its turn** if the invocation for the config of its case left a file there. -/
theorem readText_of_left (hengine : engine.ChangesOnlyTargets) {turn : World × CopiedCase}
    (h : turn ∈ (w.fixing engine schedule options cases).world.turns (w.copyCases cases).1)
    {place : Place} {bytes : List UInt8} {runnable : Bool}
    (hfile : (engine.leftFor turn.2.case.config (w.fixOrder schedule options cases)
      (w.copyCases cases).2.2).resolve false turn.2.copy = .ok (.taken place (.file bytes runnable))) :
    turn.1.readText turn.2.copy = .ok (Utf8.decodeLossy bytes) := by
  obtain ⟨-, spot, hturn, hleft⟩ := turn_spec hengine h
  obtain rfl := Except.ok.inj (hleft.symm.trans hfile)
  exact readText_eq_ok_iff.2 ⟨place, bytes, runnable, locate_of_resolve hturn (by simp), rfl⟩

/-- The golden file of a copy can be read at its turn. -/
theorem readText_golden (hengine : engine.ChangesOnlyTargets)
    (hgolden : ∀ case ∈ cases, ∃ text, w.readText case.golden = .ok text) {turn : World × CopiedCase}
    (h : turn ∈ (w.fixing engine schedule options cases).world.turns (w.copyCases cases).1) :
    ∃ wanted, turn.1.readText turn.2.case.golden = .ok wanted := by
  obtain ⟨hkeeps, -⟩ := turn_spec hengine h
  obtain ⟨-, -, hprefix, -⟩ := copyCases_spec (show w.copyCases cases = (_, _, _) from rfl)
  have hcase : turn.2.case ∈ cases := by
    refine hprefix.subset (List.mem_map_of_mem ?_)
    rw [← map_snd_turns (w.fixing engine schedule options cases).world (w.copyCases cases).1]
    exact List.mem_map_of_mem h
  obtain ⟨wanted, hwanted⟩ := hgolden turn.2.case hcase
  exact ⟨wanted, hkeeps.readText hwanted⟩

variable (hengine : engine.ChangesOnlyTargets)
  (hgolden : ∀ case ∈ cases, ∃ text, w.readText case.golden = .ok text)
include hengine hgolden

/-- **The comparison succeeds** exactly if every copy can be read at its turn. -/
theorem exists_verdicts_iff :
    (∃ verdicts, (w.fixing engine schedule options cases).world.compareCopies
      (w.copyCases cases).1 = .ok verdicts) ↔
      ∀ turn ∈ (w.fixing engine schedule options cases).world.turns (w.copyCases cases).1,
        ∃ text, turn.1.readText turn.2.copy = .ok text := by
  rw [exists_compareCopies_iff]
  -- The golden files can be read at every turn, so the copies alone decide.
  refine forall_congr' fun turn => forall_congr' fun hturn => ?_
  obtain ⟨wanted, hwanted⟩ := readText_golden hengine hgolden hturn
  exact exists_compareFixed_iff hwanted turn.2.copy

/-- **The comparison ends with an error** only at the first copy that cannot be read, where the invocation
for its config left no file. -/
theorem unreadable_of_error {e : RunError}
    (h : (w.fixing engine schedule options cases).world.compareCopies (w.copyCases cases).1 =
      .error e) : ∃ before turn after cause,
      (w.fixing engine schedule options cases).world.turns (w.copyCases cases).1 =
        before ++ turn :: after ∧
      (∀ turn ∈ before, ∃ text, turn.1.readText turn.2.copy = .ok text) ∧
      e = .file turn.2.copy cause ∧ turn.1.readText turn.2.copy = .error e ∧
      ∀ place bytes runnable, (engine.leftFor turn.2.case.config
        (w.fixOrder schedule options cases) (w.copyCases cases).2.2).resolve false turn.2.copy ≠
          .ok (.taken place (.file bytes runnable)) := by
  obtain ⟨before, turn, after, hturns, hbefore, herror⟩ := compareCopies_error h
  have hmem : ∀ turn' ∈ before ++ turn :: after, turn' ∈
      (w.fixing engine schedule options cases).world.turns (w.copyCases cases).1 := by
    rw [hturns]
    exact fun _ hturn' => hturn'
  have hturn := hmem turn (by simp)
  obtain ⟨wanted, hwanted⟩ := readText_golden hengine hgolden hturn
  have hunread := (compareFixed_eq_error_iff hwanted turn.2.copy e).1 herror
  obtain ⟨cause, hcause⟩ := file_of_readText hunread
  refine ⟨before, turn, after, cause, hturns, ?_, hcause, hunread, ?_⟩
  · intro turn' hturn'
    obtain ⟨wanted', hwanted'⟩ :=
      readText_golden hengine hgolden (hmem turn' (List.mem_append_left _ hturn'))
    exact (exists_compareFixed_iff hwanted' turn'.2.copy).1 (hbefore turn' hturn')
  · intro place bytes runnable hfile
    cases (readText_of_left hengine hturn hfile).symm.trans hunread

end World

/-- **How a verification ends** whose copies could be made and whose golden files can be read, with an engine
that changes nothing but its targets. It ends well exactly if every copy can be read at its turn, whatever
the invocations end with. Then each case has a verdict, and each config has the outcome of its own
invocation. Else the error is about the first copy that cannot be read, where the invocation for its config
left no file. -/
theorem outcome_of_checkFixes {s s' : Session} {engine : Engine} {schedule : Schedule}
    {cases : List GoldenCase} {options : Options} {result : Except RunError Verified} {f : Fixing}
    (hengine : engine.ChangesOnlyTargets) (hmade : (s.world.copyCases cases).2.1 = none)
    (hgolden : ∀ case ∈ cases, ∃ text, s.world.readText case.golden = .ok text)
    (hf : s.world.fixing engine schedule options cases = f)
    (h : s.checkFixes engine schedule cases options = (result, s')) :
    ((∃ verified, result = .ok verified) ↔
      ∀ turn ∈ f.world.turns f.copies, ∃ text, turn.1.readText turn.2.copy = .ok text) ∧
    (∀ verdicts runs, result = .ok (verdicts, runs) →
      verdicts.map GoldenVerdict.case = cases ∧
      (∀ case ∈ cases, ∃ x ∈ f.exchanges, x.config.same case.config = true) ∧
      runs.entries.Perm (f.exchanges.map fun x => (x.config, Outcome.ofReply x.config x.reply))) ∧
    ∀ e, result = .error e → ∃ before turn after cause,
      f.world.turns f.copies = before ++ turn :: after ∧
      (∀ turn ∈ before, ∃ text, turn.1.readText turn.2.copy = .ok text) ∧
      e = .file turn.2.copy cause ∧ turn.1.readText turn.2.copy = .error e ∧
      ∀ place bytes runnable, (engine.leftFor turn.2.case.config
        (f.exchanges.map Exchange.invocation) (s.world.copyCases cases).2.2).resolve false
          turn.2.copy ≠ .ok (.taken place (.file bytes runnable)) := by
  subst hf
  obtain ⟨-, -, -, hcases⟩ := World.copyCases_spec
    (show s.world.copyCases cases = (_, _, _) from rfl)
  obtain ⟨rfl, -⟩ := Session.checkFixes_of_made hmade h
  rw [World.map_invocation_fixing, World.copies_fixing, ← World.exists_verdicts_iff hengine hgolden]
  cases hcompared : (s.world.fixing engine schedule options cases).world.compareCopies
      (s.world.copyCases cases).1 with
  | ok verdicts =>
    refine ⟨by simp [Except.map], ?_, ?_⟩
    · intro verdicts' runs hok
      obtain ⟨rfl, rfl⟩ := Prod.mk.inj (Except.ok.inj hok)
      exact ⟨(World.compareCopies_cases hcompared).trans (hcases hmade),
        fun case hcase => World.exists_exchange_of_case hmade hcase,
        Exchange.entries_byConfig_perm (World.distinctConfigs_fixing _ _ _ _ _)⟩
    · intro e he
      cases he
  | error e =>
    refine ⟨by simp [Except.map], ?_, ?_⟩
    · intro verdicts runs hok
      cases hok
    · intro e' he
      obtain rfl := Except.error.inj he
      exact World.unreadable_of_error hengine hgolden hcompared

/-- One config truncates its copy and crashes, the other one fixes its copy and fails: both have their
verdicts and their outcomes. -/
theorem outcome_of_two_failures :
    let world : World :=
      { tree := Tree.ofTexts
          [(["tmp".toList], .directory), (["a.py".toList], .file (Utf8.encode ['x']) false),
            (["b.py".toList], .file (Utf8.encode ['y']) false),
            (["a.fixed.py".toList], .file (Utf8.encode ['a']) false),
            (["b.fixed.py".toList], .file (Utf8.encode ['b']) false)]
        home := []
        scratch := Place.ofTexts ["tmp".toList] }
    let a : Path := ⟨"/a.yaml".toList⟩
    let b : Path := ⟨"/b.yaml".toList⟩
    let engine : Engine := .editing
      (fun i => if i.config = a then .crashed none else .failed (.malformed "boom".toList))
      fun i _ => some (.file (if i.config = a then [] else Utf8.encode ['b']) false)
    let cases : List GoldenCase :=
      [⟨a, ⟨"/a.py".toList⟩, ⟨"/a.fixed.py".toList⟩⟩, ⟨b, ⟨"/b.py".toList⟩, ⟨"/b.fixed.py".toList⟩⟩]
    ∃ verdicts runs s', engine.ChangesOnlyTargets ∧
      (Session.start world).checkFixes engine .inTurn cases (.detecting true false .none) =
        (.ok (verdicts, runs), s') ∧
      verdicts.map GoldenVerdict.case = cases ∧
      verdicts.map GoldenVerdict.passed = [false, true] ∧
      runs.entries.map (fun e => (e.1, e.2.error)) =
        [(a, some "engine invocation panicked".toList),
          (b, some "engine result is malformed: boom".toList)] := by
  intro world a b engine cases
  have hengine : engine.ChangesOnlyTargets := Engine.changesOnlyTargets_editing _ _
  have hmade : ((Session.start world).world.copyCases cases).2.1 = none := by decide +kernel
  have hreadable : ∀ case ∈ cases,
      ((Session.start world).world.readText case.golden).isOk = true := by
    decide +kernel
  have hended : (((Session.start world).checkFixes engine .inTurn cases
      (.detecting true false .none)).1.toOption.map fun verified =>
        (verified.1.map GoldenVerdict.passed, verified.2.entries.map fun e => (e.1, e.2.error))) =
      some ([false, true], [(a, some "engine invocation panicked".toList),
        (b, some "engine result is malformed: boom".toList)]) := by
    decide +kernel
  rcases hrun : (Session.start world).checkFixes engine .inTurn cases (.detecting true false .none)
    with ⟨result, s'⟩
  obtain ⟨-, hok, -⟩ := outcome_of_checkFixes hengine hmade
    (fun case hcase => World.exists_readText (hreadable case hcase)) rfl hrun
  rw [hrun] at hended
  cases result with
  | error e => cases hended
  | ok verified =>
    obtain ⟨verdicts, runs⟩ := verified
    obtain ⟨hpassed, herrors⟩ := Prod.mk.inj (Option.some.inj hended)
    exact ⟨verdicts, runs, s', hengine, rfl, (hok verdicts runs rfl).1, hpassed, herrors⟩

/-- **A removed copy ends the verification**: one config removes its copy, another one fixes its own, all
files are there and the copies could be made, and yet nothing is said about either. -/
theorem removed_copy_ends_verification :
    let world : World :=
      { tree := Tree.ofTexts
          [(["tmp".toList], .directory), (["a.py".toList], .file (Utf8.encode ['x']) false),
            (["b.py".toList], .file (Utf8.encode ['y']) false),
            (["a.fixed.py".toList], .file (Utf8.encode ['a']) false),
            (["b.fixed.py".toList], .file (Utf8.encode ['b']) false)]
        home := []
        scratch := Place.ofTexts ["tmp".toList] }
    let a : Path := ⟨"/a.yaml".toList⟩
    let b : Path := ⟨"/b.yaml".toList⟩
    let engine : Engine := .editing (fun _ => .found .empty) fun i _ =>
      if i.config = a then none else some (.file (Utf8.encode ['b']) false)
    let cases : List GoldenCase :=
      [⟨a, ⟨"/a.py".toList⟩, ⟨"/a.fixed.py".toList⟩⟩, ⟨b, ⟨"/b.py".toList⟩, ⟨"/b.fixed.py".toList⟩⟩]
    engine.ChangesOnlyTargets ∧ (world.copyCases cases).2.1 = none ∧
      (∀ case ∈ cases, (world.readText case.target).isOk = true ∧
        (world.readText case.golden).isOk = true) ∧
      ((Session.start world).checkFixes engine .inTurn cases (.detecting true false .none)).1 =
        .error (.file ⟨"/tmp/ruletest-000000.py".toList⟩ .notFound) := by
  intro world a b engine cases
  have hended : (match ((Session.start world).checkFixes engine .inTurn cases
        (.detecting true false .none)).1 with
      | .error e => some e
      | .ok _ => none) = some (.file ⟨"/tmp/ruletest-000000.py".toList⟩ .notFound) := by
    decide +kernel
  refine ⟨Engine.changesOnlyTargets_editing _ _, by decide +kernel, by decide +kernel, ?_⟩
  split at hended
  next e he =>
    rw [he, Option.some.inj hended]
  next => cases hended

end RuleAudit
