import Mathlib.Data.List.TakeWhile
import RuleAudit.Path.Suffix
import RuleAudit.Proofs.Path.Components

/-!
# Stems and suffixes

A name with suffixes is a stem and then its suffixes. The stem has a character other than a dot, and that
is all that a suffix asks of what stands before it: a text with a dot in front is the last suffix of a name
exactly if the name ends in it after a character other than a dot. Taking suffixes away therefore leaves a
proper name.
-/

namespace RuleAudit

namespace Suffix

/-- The text has a character other than a dot. -/
def Solid (s : Text) : Prop := ∃ c ∈ s, c ≠ '.'

theorem Solid.append_left {s : Text} (h : Solid s) (t : Text) : Solid (s ++ t) := by
  obtain ⟨c, hc, hne⟩ := h
  exact ⟨c, List.mem_append_left t hc, hne⟩

theorem solid_iff_dropWhile {s : Text} : Solid s ↔ s.dropWhile (· == '.') ≠ [] := by
  rw [ne_eq, List.dropWhile_eq_nil_iff]
  simp [Solid]

/-- A piece with the dot before it. -/
def dotted (piece : Text) : Text := '.' :: piece

/-- The pieces of a name between its dots, behind its leading dots. -/
def segments (name : Text) : List Text := Text.splitOn '.' (name.dropWhile (· == '.'))

theorem ofName_eq (name : Text) : ofName name =
    if name.getLast? = some '.' then [] else ((segments name).drop 1).map dotted := rfl

/-- A name is its leading dots, its first segment and the other segments behind their dots. -/
theorem eq_append_of_segments {name first : Text} {rest : List Text}
    (h : segments name = first :: rest) :
    name.takeWhile (· == '.') ++ first ++ (rest.map dotted).flatten = name := by
  have hcore := Text.intercalate_splitOn '.' (name.dropWhile (· == '.'))
  rw [← segments, h, Text.intercalate_cons_eq] at hcore
  rw [List.append_assoc, ← List.flatMap_def]
  exact (congrArg _ hcore).trans List.takeWhile_append_dropWhile

/-! ## The suffixes of a name -/

theorem splitOn_append_dotted (s : Text) {pieces : List Text} (h : ∀ piece ∈ pieces, '.' ∉ piece) :
    Text.splitOn '.' (s ++ (pieces.map dotted).flatten) = Text.splitOn '.' s ++ pieces := by
  induction pieces generalizing s with
  | nil => simp
  | cons piece rest ih =>
    obtain ⟨hpiece, hrest⟩ := List.forall_mem_cons.1 h
    rw [List.map_cons, List.flatten_cons, dotted, List.cons_append, Text.splitOn_append_cons,
      ih piece hrest, Text.splitOn_of_not_mem hpiece, List.singleton_append]

/-- Pieces with dots, behind a solid text, are suffixes of the whole. -/
theorem suffix_ofName_append {stem : Text} (hstem : Solid stem) {pieces : List Text}
    (h : ∀ piece ∈ pieces, piece ≠ [] ∧ '.' ∉ piece) :
    pieces.map dotted <:+ ofName (stem ++ (pieces.map dotted).flatten) := by
  by_cases hnone : pieces = []
  · simp [hnone]
  obtain ⟨earlier, last, rfl⟩ := (List.eq_nil_or_concat' pieces).resolve_left hnone
  obtain ⟨hlast, hdot⟩ := h last (by simp)
  -- The name ends as its last piece does, and not in a dot.
  have hend : (stem ++ ((earlier ++ [last]).map dotted).flatten).getLast? ≠ some '.' := by
    obtain ⟨start, c, rfl⟩ := (List.eq_nil_or_concat' last).resolve_left hlast
    have htext : stem ++ ((earlier ++ [start ++ [c]]).map dotted).flatten =
        stem ++ (earlier.map dotted).flatten ++ dotted start ++ [c] := by
      simp [dotted]
    rw [htext, List.getLast?_concat, ne_eq, Option.some.injEq]
    exact fun hc => hdot (by simp [hc])
  refine ⟨((Text.splitOn '.' (stem.dropWhile (· == '.'))).drop 1).map dotted, ?_⟩
  rw [ofName, if_neg hend, List.dropWhile_append,
    if_neg (by simpa using solid_iff_dropWhile.1 hstem),
    splitOn_append_dotted _ fun piece hpiece => (h piece hpiece).2,
    List.drop_append_of_le_length (List.length_pos_iff.2 (Text.splitOn_ne_nil _ _))]
  exact List.map_append.symm

/-- The first piece of a text that does not start with a dot. -/
theorem solid_head_splitOn {s first : Text} {rest : List Text} (hne : s ≠ [])
    (hhead : s.head? ≠ some '.') (h : Text.splitOn '.' s = first :: rest) : Solid first := by
  obtain ⟨c, more, rfl⟩ := List.exists_cons_of_ne_nil hne
  have hc : c ≠ '.' := fun hc => hhead (by simp [hc])
  rw [Text.splitOn, if_neg hc] at h
  refine ⟨c, ?_, hc⟩
  split at h <;> obtain ⟨rfl, -⟩ := List.cons.inj h <;> exact List.mem_cons_self

/-- **A name with suffixes** is a solid stem and then the suffixes, each a piece without dots behind its
dot. -/
theorem exists_stem {name : Text} (h : ofName name ≠ []) : ∃ (stem : Text) (pieces : List Text),
    Solid stem ∧ ofName name = pieces.map dotted ∧ name = stem ++ (pieces.map dotted).flatten ∧
      ∀ piece ∈ pieces, '.' ∉ piece := by
  rw [ofName_eq] at h ⊢
  split at h
  · exact absurd rfl h
  next hend =>
    rw [if_neg hend]
    obtain ⟨first, rest, hpieces⟩ : ∃ first rest, segments name = first :: rest :=
      List.exists_cons_of_ne_nil (Text.splitOn_ne_nil '.' _)
    rw [hpieces] at h ⊢
    have hne : name.dropWhile (· == '.') ≠ [] := by
      intro hempty
      rw [segments, hempty] at hpieces
      obtain ⟨-, rfl⟩ := List.cons.inj hpieces
      simp at h
    have hhead : (name.dropWhile (· == '.')).head? ≠ some '.' := by
      intro hdot
      have := List.head?_dropWhile_not (· == '.') name
      rw [hdot] at this
      simp at this
    obtain ⟨c, hc, hsolid⟩ := solid_head_splitOn hne hhead hpieces
    refine ⟨name.takeWhile (· == '.') ++ first, rest, ⟨c, List.mem_append_right _ hc, hsolid⟩, rfl,
      (eq_append_of_segments hpieces).symm, fun piece hpiece => ?_⟩
    have hmem : piece ∈ segments name := hpieces ▸ List.mem_cons_of_mem _ hpiece
    exact Text.not_mem_of_mem_splitOn hmem

theorem solid_of_ofName {name : Text} (h : ofName name ≠ []) : Solid name := by
  obtain ⟨stem, pieces, hstem, -, hname, -⟩ := exists_stem h
  exact hname ▸ hstem.append_left _

/-- The name ends in some suffixes, one after the other, behind a solid text. -/
def EndsIn (suffixes : List Text) (name : Text) : Prop :=
  ∃ stem, Solid stem ∧ name = stem ++ suffixes.flatten

/-- **Which pieces are the last suffixes of a name**: those in which it ends behind a solid text. -/
theorem suffix_ofName_iff {name : Text} {pieces : List Text} (hne : pieces ≠ [])
    (h : ∀ piece ∈ pieces, piece ≠ [] ∧ '.' ∉ piece) :
    pieces.map dotted <:+ ofName name ↔ EndsIn (pieces.map dotted) name := by
  constructor
  · rintro ⟨earlier, hearlier⟩
    have hsome : ofName name ≠ [] := by simp [← hearlier, hne]
    obtain ⟨stem, all, hstem, hall, hname, -⟩ := exists_stem hsome
    rw [← hall, ← hearlier, List.flatten_append, ← List.append_assoc] at hname
    exact ⟨stem ++ earlier.flatten, hstem.append_left _, hname⟩
  · rintro ⟨stem, hstem, rfl⟩
    exact suffix_ofName_append hstem h

theorem exists_piece_of_mem_configSuffixes {ext : Text} (h : ext ∈ configSuffixes) :
    ∃ piece, ext = dotted piece ∧ piece ≠ [] ∧ '.' ∉ piece := by
  rcases List.mem_pair.1 h with rfl | rfl
  · exact ⟨"yaml".toList, by decide⟩
  · exact ⟨"yml".toList, by decide⟩

/-! ## Names without suffixes -/

theorem exists_of_last? {name suffix : Text} (h : last? name = some suffix) :
    ∃ stem, Solid stem ∧ name = stem ++ suffix := by
  obtain ⟨earlier, hearlier⟩ := List.getLast?_eq_some_iff.1 h
  have hsome : ofName name ≠ [] := by simp [hearlier]
  obtain ⟨stem, pieces, hstem, hpieces, hname, -⟩ := exists_stem hsome
  rw [← hpieces, hearlier, List.flatten_append, List.flatten_singleton, ← List.append_assoc] at hname
  exact ⟨stem ++ earlier.flatten, hstem.append_left _, hname⟩

/-- One suffix less leaves what was before it. -/
theorem take_of_last? {name suffix : Text} (h : last? name = some suffix) :
    ∃ stem, Solid stem ∧ name.take (name.length - suffix.length) = stem ∧ stem <+: name := by
  obtain ⟨stem, hstem, rfl⟩ := exists_of_last? h
  exact ⟨stem, hstem, by simp, List.prefix_append stem suffix⟩

theorem prefix_stripWithin (fuel : Nat) (name : Text) : stripWithin fuel name <+: name := by
  induction fuel generalizing name with
  | zero => exact List.prefix_rfl
  | succ fuel ih =>
    rw [stripWithin]
    cases hlast : last? name with
    | none => exact List.prefix_rfl
    | some suffix =>
      obtain ⟨stem, -, htake, hprefix⟩ := take_of_last? hlast
      exact (ih _).trans (htake ▸ hprefix)

theorem solid_stripWithin (fuel : Nat) {name : Text} (h : Solid name) :
    Solid (stripWithin fuel name) := by
  induction fuel generalizing name with
  | zero => exact h
  | succ fuel ih =>
    rw [stripWithin]
    cases hlast : last? name with
    | none => exact h
    | some suffix =>
      obtain ⟨stem, hstem, htake, -⟩ := take_of_last? hlast
      exact ih (htake ▸ hstem)

/-- A name without suffixes stays as it is. -/
theorem strip_eq_self {name : Text} (h : ofName name = []) : strip name = name := by
  have hlast : last? name = none := by rw [last?, h, List.getLast?_nil]
  rw [strip]
  cases name.length <;> simp [stripWithin, hlast]

/-- The beginning of the text of a name is one, too, if it has a character other than a dot. -/
theorem properText_of_prefix {stem name : Text} (h : ProperText name) (hsolid : Solid stem)
    (hstem : stem <+: name) : ProperText stem := by
  obtain ⟨c, hc, hdot⟩ := hsolid
  refine ⟨List.ne_nil_of_mem hc, ?_, ?_, fun hslash => h.2.2.2 (hstem.subset hslash)⟩
  · rintro rfl
    exact hdot (List.mem_singleton.1 hc)
  · rintro rfl
    simp [hdot] at hc

/-- **The text of a name without its suffixes** is that of a name. -/
theorem properText_strip {name : Text} (h : ProperText name) : ProperText (strip name) := by
  by_cases hsolid : Solid name
  · exact properText_of_prefix h (solid_stripWithin _ hsolid) (prefix_stripWithin _ _)
  · have hnone : ofName name = [] := by
      by_contra hsome
      exact hsolid (solid_of_ofName hsome)
    rwa [strip_eq_self hnone]

end Suffix

namespace Path

/-! ## Paths without suffixes -/

theorem properName_of_components {p : Path} {above : List Component} {name : List UInt8}
    (h : p.components = above ++ [.name name]) : ProperName name :=
  properName_of_mem (p := p) (by simp [h])

/-- A name without its suffixes: its text without them, or the name itself if it has none. -/
def stem (name : List UInt8) : List UInt8 :=
  let text := Utf8.decodeLossy name
  if Suffix.ofName text = [] then name else Utf8.encode (Suffix.strip text)

/-- The text of what is left is the text without suffixes. -/
theorem decodeLossy_stem (name : List UInt8) :
    Utf8.decodeLossy (stem name) = Suffix.strip (Utf8.decodeLossy name) := by
  rw [stem]
  split
  next hnone => rw [Suffix.strip_eq_self hnone]
  · exact Utf8.decodeLossy_encode _

theorem properName_stem {name : List UInt8} (h : ProperName name) : ProperName (stem name) := by
  rw [stem]
  split
  · exact h
  · exact (Suffix.properText_strip h.text).encode

/-- A name that is valid UTF-8 is cut as its text is. -/
theorem stem_of_isValid {name : List UInt8} (h : Utf8.isValid name = true) :
    stem name = Utf8.encode (Suffix.strip (Utf8.decodeLossy name)) := by
  rw [stem]
  split
  next hnone => rw [Suffix.strip_eq_self hnone, Utf8.encode_decodeLossy_of_isValid h]
  · rfl

theorem nameText?_eq {p : Path} {name : List UInt8} (h : p.fileName? = some name) :
    p.nameText? = some (Utf8.decodeLossy name) := by
  rw [nameText?, h, Option.map_some]

/-- The path without suffixes, by its name. -/
theorem withoutSuffixes_eq_ite {p : Path} {name : List UInt8} (h : p.fileName? = some name) :
    p.withoutSuffixes =
      if Suffix.ofName (Utf8.decodeLossy name) = [] then p else p.withFileName (stem name) := by
  rw [withoutSuffixes, nameText?_eq h, stem]
  simp only [List.isEmpty_iff]
  split <;> rfl

/-- **Without the suffixes of its file name** a path changes in its last component only. -/
theorem components_withoutSuffixes {p : Path} {above : List Component} {name : List UInt8}
    (h : p.components = above ++ [.name name]) :
    p.withoutSuffixes.components = above ++ [.name (stem name)] := by
  rw [withoutSuffixes_eq_ite (fileName?_eq_some_iff.2 ⟨above, h⟩)]
  split
  next hnone => rw [h, stem, if_pos hnone]
  · exact components_withFileName h (properName_stem (properName_of_components h))

/-- A single name as a path, without its suffixes. -/
theorem withoutSuffixes_name {name : List UInt8} (h : ProperName name) :
    withoutSuffixes ⟨name⟩ = ⟨stem name⟩ := by
  have hname : fileName? ⟨name⟩ = some name := fileName?_eq_some_iff.2 ⟨[], components_name h⟩
  have hparent : parent? ⟨name⟩ = some ⟨[]⟩ := by
    simp [parent?, Text.splitOn_of_not_mem h.2.2.2, dropUncounted, counts,
      component?_of_properName h, isAbsolute_of_properName h]
  rw [withoutSuffixes_eq_ite hname]
  split
  next hnone => rw [stem, if_pos hnone]
  · rw [withFileName, hname, hparent]
    exact join_of_bytes_eq_nil rfl (properName_stem h)

/-! ## Roles -/

theorem suffixes_eq {p : Path} {name : List UInt8} (h : p.fileName? = some name) :
    p.suffixes = Suffix.ofName (Utf8.decodeLossy name) := by
  rw [suffixes, nameText?_eq h, Option.map_some, Option.getD_some]

/-- A config has the suffix of one as its last. -/
theorem isConfig_iff {p : Path} :
    p.isConfig = true ↔ ∃ ext ∈ Suffix.configSuffixes, [ext] <:+ p.suffixes := by
  have hlast : ∀ ext, p.suffixes.getLast? = some ext ↔ [ext] <:+ p.suffixes := fun ext =>
    List.getLast?_eq_some_iff.trans ⟨fun ⟨init, h⟩ => ⟨init, h.symm⟩, fun ⟨init, h⟩ => ⟨init, h.symm⟩⟩
  rw [isConfig, lastSuffix?, Option.any_eq_true]
  simp only [hlast, List.contains_iff_mem]
  exact exists_congr fun ext => and_comm

/-- A config that serves as a fixture has `.test` before that suffix. -/
theorem isConfigTest_iff {p : Path} :
    p.isConfigTest = true ↔ ∃ ext ∈ Suffix.configSuffixes, [Suffix.test, ext] <:+ p.suffixes := by
  have hends : ∀ ext, [Suffix.test, ext] <:+ p.suffixes ↔ [ext, Suffix.test] <+: p.suffixes.reverse :=
    fun ext => List.reverse_prefix.symm
  simp only [hends, isConfigTest]
  match p.suffixes.reverse with
  | [] => simp
  | [final] => simp
  | final :: test :: _ => simp [and_comm, eq_comm (a := test)]

/-- A config by the text of its name. -/
theorem isConfig_iff_endsIn {p : Path} {name : List UInt8} (h : p.fileName? = some name) :
    p.isConfig = true ↔
      ∃ ext ∈ Suffix.configSuffixes, Suffix.EndsIn [ext] (Utf8.decodeLossy name) := by
  rw [isConfig_iff, suffixes_eq h]
  refine exists_congr fun ext => and_congr_right fun hext => ?_
  obtain ⟨piece, rfl, hpiece⟩ := Suffix.exists_piece_of_mem_configSuffixes hext
  exact Suffix.suffix_ofName_iff (List.cons_ne_nil piece []) (by simpa using hpiece)

/-- A config that serves as a fixture, by the text of its name. -/
theorem isConfigTest_iff_endsIn {p : Path} {name : List UInt8} (h : p.fileName? = some name) :
    p.isConfigTest = true ↔
      ∃ ext ∈ Suffix.configSuffixes, Suffix.EndsIn [Suffix.test, ext] (Utf8.decodeLossy name) := by
  rw [isConfigTest_iff, suffixes_eq h]
  refine exists_congr fun ext => and_congr_right fun hext => ?_
  obtain ⟨piece, rfl, hpiece⟩ := Suffix.exists_piece_of_mem_configSuffixes hext
  have htest : "test".toList ≠ [] ∧ '.' ∉ "test".toList := by decide
  exact Suffix.suffix_ofName_iff (List.cons_ne_nil "test".toList [piece])
    (List.forall_mem_cons.2 ⟨htest, by simpa using hpiece⟩)

theorem isGolden_iff {p : Path} : p.isGolden = true ↔ Suffix.golden ∈ p.suffixes := by
  rw [isGolden, List.contains_iff_mem]

end Path

end RuleAudit
