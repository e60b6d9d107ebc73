import RuleAudit.Proofs.Scoring.Entries

/-!
# When all verdicts pass

The verdicts of a config come out of two checks: the rule ids of each fixture have to be those
reported for it, and the lines of each rule in each file have to agree. The first one is stated here on the
annotations and the findings themselves, without the table that is built on the way. The second one looks at the
table, so it leaves out a file whose text is also that of a later one.
-/

namespace RuleAudit

/-- Every rule of a config passes. -/
def ConfigVerdict.AllPass (result : ConfigVerdict) : Prop :=
  ∀ check ∈ result.values, check.passed = true

/-- The findings can be compared with the annotations, and every verdict passes. -/
def Passes (place : Path → Path) (findings : List Finding) (annotated : Annotated) : Prop :=
  ∃ table, compareFindings (.ofFindings place findings) annotated = .ok table ∧
    (ConfigVerdict.ofComparisons table).AllPass

instance (result : ConfigVerdict) : Decidable result.AllPass :=
  inferInstanceAs (Decidable (∀ check ∈ result.values, check.passed = true))

instance (place : Path → Path) (findings : List Finding) (annotated : Annotated) :
    Decidable (Passes place findings annotated) :=
  match h : compareFindings (.ofFindings place findings) annotated with
  | .ok table => decidable_of_iff (ConfigVerdict.ofComparisons table).AllPass (by simp [Passes, h])
  | .error _ => isFalse (by simp [Passes, h])

/-- The fixture of a file exercises no rule at all, or exactly those that are reported for it. -/
def IdsMatchIn (place : Path → Path) (findings : List Finding) (annotated : Annotated)
    (file : Path) : Prop :=
  (∀ rule, rule ∉ (annotated.notesOf file).tested.elems) ∨
    ∀ rule, rule ∈ (annotated.notesOf file).tested.elems ↔ ∃ n, Reports place findings file rule n

/-- As soon as there is a finding, the ids of every file match. -/
def IdsMatch (place : Path → Path) (findings : List Finding) (annotated : Annotated) : Prop :=
  findings = [] ∨ ∀ file, IdsMatchIn place findings annotated file

/-- In a file, the lines of a rule that are not suppressed are expected if and only if they are reported. -/
def LinesMatchIn (place : Path → Path) (findings : List Finding) (annotated : Annotated) (file : Path)
    (rule : Text) : Prop :=
  ∀ n, n ∉ suppressedLines (annotated.notesOf file) rule →
    (n ∈ (annotated.notesOf file).expected.linesOf rule ↔ Reports place findings file rule n)

/-- The lines of every rule match in every file. -/
def LinesMatch (place : Path → Path) (findings : List Finding) (annotated : Annotated) : Prop :=
  ∀ file rule, LinesMatchIn place findings annotated file rule

/-! ## Ids -/

theorem idsMatchIn_congr {place : Path → Path} {findings : List Finding} {annotated : Annotated}
    {file file' : Path} (h : file.same file' = true) :
    IdsMatchIn place findings annotated file ↔ IdsMatchIn place findings annotated file' := by
  simp only [IdsMatchIn, Annotated.notesOf_congr h, reports_congr h]

theorem mismatchOf_eq_none_iff {reported : Reported} {file : Path} {notes : Annotations} :
    mismatchOf reported file notes = none ↔
      (∀ rule, rule ∉ notes.tested.elems) ∨
        ∀ rule, rule ∈ notes.tested.elems ↔ rule ∈ (reported.idsOf file).elems := by
  have heq : notes.tested = reported.idsOf file ↔
      ∀ rule, rule ∈ notes.tested.elems ↔ rule ∈ (reported.idsOf file).elems :=
    ⟨fun h rule => by rw [h], OrderedSet.ext_mem⟩
  simp only [mismatchOf, ite_eq_left_iff, reduceCtorEq, imp_false, not_not, ← heq,
    Bool.or_eq_true, beq_iff_eq, OrderedSet.isEmpty_iff]

theorem mismatches_eq_nil_iff {place : Path → Path} {findings : List Finding}
    {annotated : Annotated} : mismatches (.ofFindings place findings) annotated = [] ↔
      IdsMatch place findings annotated := by
  have hnil : (Reported.ofFindings place findings).isEmpty = true ↔ findings = [] :=
    Reported.isEmpty_ofFindings
  rw [mismatches, IdsMatch, ← hnil]
  by_cases hempty : (Reported.ofFindings place findings).isEmpty = true
  · simp [hempty]
  rw [if_neg hempty, or_iff_right hempty, List.filterMap_eq_nil_iff]
  simp only [mismatchOf_eq_none_iff, Reported.mem_idsOf_ofFindings, IdsMatchIn]
  constructor
  · intro h file
    cases hget : annotated.get? file with
    | none =>
      rw [Annotated.notesOf, hget]
      exact .inl Annotations.not_mem_tested_none
    | some notes =>
      obtain ⟨file', hsame, hmem⟩ := OrderedMap.get?_eq_some_iff.1 hget
      rw [Annotated.notesOf, hget, Option.getD_some]
      simpa only [reports_congr (Path.compare_eq_iff.1 hsame)] using h _ hmem
  · intro h e he
    have hnotes : annotated.notesOf e.1 = e.2 := by
      rw [Annotated.notesOf, OrderedMap.get?_of_mem he, Option.getD_some]
    simpa only [hnotes] using h e.1

/-- Where there are mismatches, they come instead of the comparisons. -/
theorem compareFindings_eq_error_iff {reported : Reported} {annotated : Annotated}
    {ms : List Mismatch} : compareFindings reported annotated = .error ms ↔
      mismatches reported annotated = ms ∧ ms ≠ [] := by
  rw [compareFindings]
  split
  next hnil => simp [hnil, eq_comm]
  next hne =>
    rw [Except.error.injEq, iff_self_and]
    rintro rfl
    exact hne

/-- **Findings can be compared** with annotations if and only if the ids match. -/
theorem compareFindings_ok_iff {place : Path → Path} {findings : List Finding}
    {annotated : Annotated} :
    (∃ table, compareFindings (.ofFindings place findings) annotated = .ok table) ↔
      IdsMatch place findings annotated := by
  rw [← mismatches_eq_nil_iff, compareFindings]
  split <;> simp_all

theorem compareFindings_error_iff {place : Path → Path} {findings : List Finding}
    {annotated : Annotated} :
    (∃ ms, compareFindings (.ofFindings place findings) annotated = .error ms) ↔
      ¬ IdsMatch place findings annotated := by
  simp only [compareFindings_eq_error_iff, exists_eq_left', ← mismatches_eq_nil_iff, ne_eq]

/-! ## Lines -/

theorem passed_lineComparison_iff {reported : Reported} {notes : Annotations} {file : Path}
    {rule : Text} : (lineComparison reported notes file rule).passed = true ↔
      ∀ n, n ∉ suppressedLines notes rule →
        (n ∈ notes.expected.linesOf rule ↔ n ∈ reported.linesOf file rule) := by
  rw [LineComparison.passed, beq_iff_eq]
  constructor
  · intro h n hn
    have hmem : n ∈ (lineComparison reported notes file rule).expected ↔
        n ∈ (lineComparison reported notes file rule).reported := by rw [h]
    simpa [mem_lineComparison_expected, mem_lineComparison_reported, hn] using hmem
  · intro h
    obtain ⟨hexp, hrep⟩ := lineComparison_ascending reported notes file rule
    refine eq_of_ascending (hexp.imp Nat.compare_eq_lt.2) (hrep.imp Nat.compare_eq_lt.2) ?_
    intro n
    rw [mem_lineComparison_expected, mem_lineComparison_reported]
    exact and_congr_left (h n)

theorem allPass_ofComparisons_iff {table : RuleComparisons} :
    (ConfigVerdict.ofComparisons table).AllPass ↔
      ∀ rule key m, table.at? rule key = some m → m.passed = true := by
  have hget : ∀ rule, (ConfigVerdict.ofComparisons table).get? rule =
      (table.get? rule).map fun files => ⟨files.values.all LineComparison.passed, files⟩ :=
    fun rule => OrderedMap.get?_mapValues table _ rule
  simp only [ConfigVerdict.AllPass, OrderedMap.mem_values_iff, hget, Option.map_eq_some_iff,
    RuleComparisons.at?, Option.bind_eq_some_iff]
  constructor
  · rintro h rule key m ⟨files, hfiles, hm⟩
    have hall := h _ ⟨rule, files, hfiles, rfl⟩
    exact List.all_eq_true.1 hall m (OrderedMap.mem_values_iff.2 ⟨key, hm⟩)
  · rintro h check ⟨rule, files, hfiles, rfl⟩
    refine List.all_eq_true.2 ?_
    intro m hm
    obtain ⟨key, hkey⟩ := OrderedMap.mem_values_iff.1 hm
    exact h rule key m ⟨files, hfiles, hkey⟩

/-- A file has no failed comparison if and only if every comparison under its text passed. -/
theorem fails_ofComparisons_iff {table : RuleComparisons} {key : Text} :
    (ConfigVerdict.ofComparisons table).fails key = false ↔
      ∀ rule m, table.at? rule key = some m → m.passed = true := by
  have hvalues : (ConfigVerdict.ofComparisons table).values.map RuleVerdict.files = table.values := by
    simp [ConfigVerdict.ofComparisons, OrderedMap.values, OrderedMap.mapValues, Function.comp_def]
  have hfails : (ConfigVerdict.ofComparisons table).fails key =
      table.values.any fun files => files.entries.any fun e => e.1 == key && !e.2.passed := by
    rw [← hvalues, List.any_map]
    rfl
  simp only [hfails, List.any_eq_false, OrderedMap.mem_values_iff, Bool.not_eq_true,
    RuleComparisons.at?, Option.bind_eq_some_iff, Bool.and_eq_false_iff, Bool.not_eq_false',
    beq_eq_false_iff_ne]
  constructor
  · rintro h rule m ⟨files, hfiles, hm⟩
    obtain ⟨key', hkey, hmem⟩ := OrderedMap.get?_eq_some_iff.1 hm
    obtain rfl := Std.LawfulEqOrd.compare_eq_iff_eq.1 hkey
    exact (h files ⟨rule, hfiles⟩ (key, m) hmem).resolve_left (absurd rfl)
  · rintro h files ⟨rule, hfiles⟩ ⟨key', m⟩ hmem
    by_cases hkey : key' = key
    · subst hkey
      exact .inr (h rule m ⟨files, hfiles, OrderedMap.get?_of_mem hmem⟩)
    · exact .inl hkey

theorem passed_iff_linesMatchIn {place : Path → Path} {findings : List Finding} {annotated : Annotated}
    {file : Path} {rule : Text} :
    (lineComparison (.ofFindings place findings) (annotated.notesOf file) file rule).passed = true ↔
      LinesMatchIn place findings annotated file rule := by
  simp only [passed_lineComparison_iff, Reported.mem_linesOf_ofFindings, LinesMatchIn]

/-- **Every verdict passes** if and only if the lines match in each file whose comparison is kept. -/
theorem allPass_iff {place : Path → Path} {findings : List Finding} {annotated : Annotated} :
    (ConfigVerdict.ofComparisons (compareLines (.ofFindings place findings) annotated)).AllPass ↔
      ∀ rule file, Shown (.ofFindings place findings) annotated rule file →
        LinesMatchIn place findings annotated file rule := by
  rw [allPass_ofComparisons_iff]
  constructor
  · intro h rule file hshown
    exact passed_iff_linesMatchIn.1
      (h rule file.display _ (RuleComparisons.at?_eq_some_iff.2 ⟨file, hshown, rfl, rfl⟩))
  · intro h rule key m hat
    obtain ⟨file, hshown, -, rfl⟩ := RuleComparisons.at?_eq_some_iff.1 hat
    exact passed_iff_linesMatchIn.2 (h rule file hshown)

/-- Where nothing is expected or reported, the lines match. -/
theorem linesMatchIn_of_not_compared {place : Path → Path} {findings : List Finding}
    {annotated : Annotated} {file : Path} {rule : Text}
    (h : rule ∉ (comparedRules (.ofFindings place findings) (annotated.notesOf file) file).elems) :
    LinesMatchIn place findings annotated file rule := by
  rw [RuleComparisons.mem_comparedRules, Reported.mem_idsOf_ofFindings] at h
  exact fun n _ => iff_of_false (fun hexp => h (.inl ⟨n, hexp⟩)) fun hrep => h (.inr ⟨n, hrep⟩)

theorem linesMatchIn_congr {place : Path → Path} {findings : List Finding} {annotated : Annotated}
    {file file' : Path} (h : file.same file' = true) {rule : Text} :
    LinesMatchIn place findings annotated file rule ↔ LinesMatchIn place findings annotated file' rule := by
  simp only [LinesMatchIn, Annotated.notesOf_congr h, reports_congr h]

/-- While the lines match in every file, every verdict passes. -/
theorem allPass_of_linesMatch {place : Path → Path} {findings : List Finding} {annotated : Annotated}
    (h : LinesMatch place findings annotated) :
    (ConfigVerdict.ofComparisons (compareLines (.ofFindings place findings) annotated)).AllPass :=
  allPass_iff.2 fun rule file _ => h file rule

/-- Where no two compared files share a text, every verdict passes if and only if the lines match, also those of
files and rules that the table has no entry for. -/
theorem allPass_iff_linesMatch {place : Path → Path} {findings : List Finding} {annotated : Annotated}
    (h : Path.TextsApart (comparedFiles (.ofFindings place findings) annotated).elems) :
    (ConfigVerdict.ofComparisons (compareLines (.ofFindings place findings) annotated)).AllPass ↔
      LinesMatch place findings annotated := by
  refine ⟨fun hpass file rule => ?_, allPass_of_linesMatch⟩
  by_cases hrule : rule ∈ (comparedRules (.ofFindings place findings)
      (annotated.notesOf file) file).elems
  · obtain ⟨file', hcompared, hsame⟩ := RuleComparisons.exists_compared hrule
    obtain ⟨shown, hshown, htext⟩ := RuleComparisons.exists_shown hcompared
    have hself : shown.same file' = true := h shown hshown.compared.1 file' hcompared.1 htext
    exact (linesMatchIn_congr (Path.same_trans hself hsame)).1 (allPass_iff.1 hpass rule shown hshown)
  · exact linesMatchIn_of_not_compared hrule

theorem passes_iff {place : Path → Path} {findings : List Finding} {annotated : Annotated} :
    Passes place findings annotated ↔ IdsMatch place findings annotated ∧
      ∀ rule file, Shown (.ofFindings place findings) annotated rule file →
        LinesMatchIn place findings annotated file rule := by
  rw [← compareFindings_ok_iff, ← allPass_iff]
  constructor
  · rintro ⟨table, h, hpass⟩
    obtain rfl := eq_compareLines_of_ok h
    exact ⟨⟨_, h⟩, hpass⟩
  · rintro ⟨⟨table, h⟩, hpass⟩
    obtain rfl := eq_compareLines_of_ok h
    exact ⟨_, h, hpass⟩

/-! ## One run after another -/

/-- Files that share their text with others keep the spelling of their paths. -/
def KeepsTexts (files files' : Path → Prop) : Prop :=
  ∀ file file', files file → files' file' → file.same file' = true →
    file = file' ∨ ∀ other, files other → other.display = file.display → other = file

/-- Where the ids match, rules are compared in files with findings only, each spelled as in its first finding. -/
theorem mem_keys_of_compared {place : Path → Path} {findings : List Finding} {annotated : Annotated}
    (hids : IdsMatch place findings annotated) (hne : findings ≠ []) {rule : Text} {file : Path}
    (h : Compared (.ofFindings place findings) annotated rule file) :
    file ∈ (Reported.ofFindings place findings).keys := by
  have hreported : ∃ n, Reports place findings file rule n := by
    rcases RuleComparisons.mem_comparedRules.1 h.2 with hexp | hid
    · have htested : rule ∈ (annotated.notesOf file).tested.elems :=
        Annotations.mem_tested.2 (.inl hexp)
      exact (((hids.resolve_left hne file).resolve_left fun hempty => hempty rule htested) rule).1 htested
    · exact Reported.mem_idsOf_ofFindings.1 hid
  obtain ⟨n, x, hx, hsame, -, -⟩ := hreported
  have hsome := Reported.isSome_get?_ofFindings.2 ⟨x, hx, hsame⟩
  obtain ⟨file', hkey, hsame'⟩ := OrderedMap.exists_mem_keys_iff.2 hsome
  have hascending : (Reported.ofFindings place findings).keys.Pairwise Before :=
    List.pairwise_map.2 (Reported.ofFindings place findings).sorted
  have hcompared : file' ∈ (comparedFiles (.ofFindings place findings) annotated).elems :=
    OrderedSet.mem_ofList_append hascending hkey
  rwa [OrderedSet.eq_of_compare_eq h.1 hcompared hsame']

theorem keepsTexts_of_same_findings {place : Path → Path} {findings : List Finding}
    {annotated annotated' : Annotated} (hids : IdsMatch place findings annotated)
    (hids' : IdsMatch place findings annotated') (hne : findings ≠ []) (rule : Text) :
    KeepsTexts (Compared (.ofFindings place findings) annotated rule)
      (Compared (.ofFindings place findings) annotated' rule) :=
  fun _ _ hfile hfile' hsame => .inl (OrderedMap.eq_of_mem_keys (mem_keys_of_compared hids hne hfile)
    (mem_keys_of_compared hids' hne hfile') (Path.compare_eq_iff.2 hsame))

theorem keepsTexts_of_steadyTexts {place : Path → Path} {findings findings' : List Finding}
    {annotated annotated' : Annotated} (hids : IdsMatch place findings annotated)
    (hids' : IdsMatch place findings' annotated') (hne : findings ≠ [])
    (hsub : ∀ y ∈ findings, y ∈ findings') (hsteady : SteadyTexts place findings') (rule : Text) :
    KeepsTexts (Compared (.ofFindings place findings) annotated rule)
      (Compared (.ofFindings place findings') annotated' rule) := by
  obtain ⟨x, hx⟩ := List.exists_mem_of_ne_nil findings hne
  have hne' : findings' ≠ [] := List.ne_nil_of_mem (hsub x hx)
  intro file file' hfile hfile' hsame
  obtain ⟨y, hy, rfl⟩ := Reported.exists_of_mem_keys (mem_keys_of_compared hids hne hfile)
  obtain ⟨y', hy', rfl⟩ := Reported.exists_of_mem_keys (mem_keys_of_compared hids' hne' hfile')
  by_cases heq : place y.path = place y'.path
  · exact .inl heq
  refine .inr fun other hother htext => ?_
  obtain ⟨z, hz, rfl⟩ := Reported.exists_of_mem_keys (mem_keys_of_compared hids hne hother)
  have hself := (hsteady y (hsub y hy) y' hy' z (hsub z hz) hsame htext).resolve_right heq
  exact OrderedSet.eq_of_compare_eq hother.1 hfile.1 (Path.compare_eq_iff.2 hself)

/-- A finding that comes at the end, or among findings whose texts are steady, changes no text that files
share. -/
theorem keepsTexts_of_addedTo {place : Path → Path} {findings findings' : List Finding}
    {annotated annotated' : Annotated} {x : Finding} (hids : IdsMatch place findings annotated)
    (hids' : IdsMatch place findings' annotated') (hne : findings ≠ [])
    (hadded : AddedTo place findings x findings') (rule : Text) :
    KeepsTexts (Compared (.ofFindings place findings) annotated rule)
      (Compared (.ofFindings place findings') annotated' rule) := by
  rcases hadded with rfl | ⟨hmem, hsteady⟩
  · intro file file' hfile hfile' hsame
    have hkey := Reported.mem_keys_append (mem_keys_of_compared hids hne hfile) [x]
    have hkey' := mem_keys_of_compared hids' (List.append_ne_nil_of_left_ne_nil hne [x]) hfile'
    exact .inl (OrderedMap.eq_of_mem_keys hkey hkey' (Path.compare_eq_iff.2 hsame))
  · exact keepsTexts_of_steadyTexts hids hids' hne (fun y hy => (hmem y).2 (.inr hy)) hsteady rule

/-- Where texts are kept and rules are still compared, a comparison that is kept now was kept before. -/
theorem shown_of_kept {reported reported' : Reported} {annotated annotated' : Annotated} {rule : Text}
    (hkept : KeepsTexts (Compared reported annotated rule) (Compared reported' annotated' rule))
    (hrules : ∀ file, rule ∈ (comparedRules reported (annotated.notesOf file) file).elems →
      rule ∈ (comparedRules reported' (annotated'.notesOf file) file).elems) {file file' : Path}
    (hfile : Compared reported annotated rule file) (hsame : file.same file' = true)
    (hshown : Shown reported' annotated' rule file') : Shown reported annotated rule file := by
  refine ⟨hfile, fun other hother htext => ?_⟩
  obtain rfl | halone := hkept file file' hfile hshown.compared hsame
  swap
  · exact .inl (halone other hother htext)
  obtain ⟨other', hother', hsame'⟩ := RuleComparisons.exists_compared (hrules other hother.2)
  rw [Path.same_comm] at hsame'
  obtain rfl | halone := hkept other other' hother hother' hsame'
  · exact hshown.last other hother' htext
  · exact .inl (halone file hfile htext.symm).symm

/-- A verdict that passes goes on passing if the files that share a text keep it, the compared rules stay and
the lines that matched go on matching. -/
theorem linesMatchIn_of_kept {place : Path → Path} {findings findings' : List Finding}
    {annotated annotated' : Annotated} {rule : Text} {file : Path}
    (hpass : ∀ rule file, Shown (.ofFindings place findings) annotated rule file →
      LinesMatchIn place findings annotated file rule)
    (hkept : KeepsTexts (Compared (.ofFindings place findings) annotated rule)
      (Compared (.ofFindings place findings') annotated' rule))
    (hrules : ∀ file, rule ∈ (comparedRules (.ofFindings place findings)
      (annotated.notesOf file) file).elems →
        rule ∈ (comparedRules (.ofFindings place findings') (annotated'.notesOf file) file).elems)
    (hlines : LinesMatchIn place findings annotated file rule →
      LinesMatchIn place findings' annotated' file rule)
    (hshown : Shown (.ofFindings place findings') annotated' rule file) :
    LinesMatchIn place findings' annotated' file rule := by
  refine hlines ?_
  by_cases hrule : rule ∈ (comparedRules (.ofFindings place findings)
      (annotated.notesOf file) file).elems
  swap
  · exact linesMatchIn_of_not_compared hrule
  obtain ⟨old, hold, hsame⟩ := RuleComparisons.exists_compared hrule
  exact (linesMatchIn_congr hsame).1 (hpass rule old (shown_of_kept hkept hrules hold hsame hshown))

/-- While the kept lines match, only the ids decide. -/
theorem passes_of_kept {place : Path → Path} {findings findings' : List Finding}
    {annotated annotated' : Annotated} {condition : Prop} (hpass : Passes place findings annotated)
    (hids : IdsMatch place findings' annotated' ↔ condition)
    (hkept : condition → ∀ rule, KeepsTexts (Compared (.ofFindings place findings) annotated rule)
      (Compared (.ofFindings place findings') annotated' rule))
    (hrules : ∀ file, ∀ rule ∈ (comparedRules (.ofFindings place findings)
      (annotated.notesOf file) file).elems,
        rule ∈ (comparedRules (.ofFindings place findings') (annotated'.notesOf file) file).elems)
    (hlines : ∀ file rule, LinesMatchIn place findings annotated file rule →
      LinesMatchIn place findings' annotated' file rule) :
    (condition → Passes place findings' annotated') ∧
      (¬ condition → ∃ ms, compareFindings (.ofFindings place findings') annotated' = .error ms) := by
  refine ⟨fun h => passes_iff.2 ⟨hids.2 h, fun rule file hshown => ?_⟩,
    fun h => compareFindings_error_iff.2 ?_⟩
  · exact linesMatchIn_of_kept (passes_iff.1 hpass).2 (hkept h rule) (fun file => hrules file rule)
      (hlines file rule) hshown
  · rwa [hids]

end RuleAudit
