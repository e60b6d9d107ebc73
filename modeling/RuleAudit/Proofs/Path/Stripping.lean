import Mathlib.Logic.Relation
import RuleAudit.Proofs.Path.Parents
import RuleAudit.Proofs.Path.Suffixes

/-!
# Paths without suffixes as normal forms

Suffixes are taken away in rounds, each of which looks for the last suffix of what the round before has
left. Every round makes the name shorter and leaves the directory alone, so the rounds end, and they end in
the path without suffixes. A suffix that is added to a name is the first one to go, which is why it makes no
difference to the key by which files are paired.
-/

namespace RuleAudit

/-! ## Rounds on a name -/

namespace Suffix

theorem ne_nil_of_last? {name suffix : Text} (h : last? name = some suffix) : suffix ≠ [] := by
  have hmem : suffix ∈ ofName name := List.mem_of_getLast? h
  rw [ofName_eq] at hmem
  split at hmem
  · cases hmem
  · obtain ⟨piece, -, rfl⟩ := List.mem_map.1 hmem
    exact List.cons_ne_nil '.' piece

/-- Each round makes the name shorter. -/
theorem length_take_of_last? {name suffix : Text} (h : last? name = some suffix) :
    (name.take (name.length - suffix.length)).length < name.length := by
  obtain ⟨stem, -, rfl⟩ := exists_of_last? h
  have hpos : 0 < suffix.length := List.length_pos_iff.2 (ne_nil_of_last? h)
  simp only [List.length_take, List.length_append]
  omega

/-- As many rounds as there are characters leave no suffix. -/
theorem last?_stripWithin {fuel : Nat} {name : Text} (h : name.length ≤ fuel) :
    last? (stripWithin fuel name) = none := by
  induction fuel generalizing name with
  | zero =>
    obtain rfl := List.length_eq_zero_iff.1 (Nat.le_zero.1 h)
    rfl
  | succ fuel ih =>
    rw [stripWithin]
    cases hlast : last? name with
    | none => exact hlast
    | some suffix =>
      have hlt := length_take_of_last? hlast
      exact ih (by omega)

/-- Without a suffix a round changes nothing. -/
theorem stripWithin_of_last?_eq_none {name : Text} (h : last? name = none) (fuel : Nat) :
    stripWithin fuel name = name := by
  cases fuel with
  | zero => rfl
  | succ fuel => rw [stripWithin, h]

/-- Rounds are done one after the other. -/
theorem stripWithin_add (fuel more : Nat) (name : Text) :
    stripWithin (fuel + more) name = stripWithin more (stripWithin fuel name) := by
  induction fuel generalizing name with
  | zero => rw [Nat.zero_add, stripWithin]
  | succ fuel ih =>
    rw [Nat.add_right_comm, stripWithin, stripWithin]
    cases hlast : last? name with
    | none => exact (stripWithin_of_last?_eq_none hlast more).symm
    | some suffix => exact ih _

/-- More rounds than there are characters change nothing. -/
theorem stripWithin_eq_strip {fuel : Nat} {name : Text} (h : name.length ≤ fuel) :
    stripWithin fuel name = strip name := by
  obtain ⟨more, rfl⟩ := Nat.exists_eq_add_of_le h
  rw [stripWithin_add, ← strip]
  exact stripWithin_of_last?_eq_none (last?_stripWithin (Nat.le_refl _)) more

theorem ofName_strip (name : Text) : ofName (strip name) = [] := by
  have hlast : last? (strip name) = none := last?_stripWithin (Nat.le_refl _)
  exact List.getLast?_eq_none_iff.1 hlast

/-- **A round** does not change what is left in the end. -/
theorem strip_take_of_last? {name suffix : Text} (h : last? name = some suffix) :
    strip (name.take (name.length - suffix.length)) = strip name := by
  have hround : stripWithin (name.length + 1) name =
      stripWithin name.length (name.take (name.length - suffix.length)) := by
    rw [stripWithin, h]
  have hshorter := length_take_of_last? h
  rw [← stripWithin_eq_strip (Nat.le_of_lt hshorter), ← hround]
  exact stripWithin_eq_strip (Nat.le_succ _)

/-! ## More suffixes -/

theorem solid_of_segments {name : Text} (h : [] ∉ segments name) : Solid name := by
  rw [solid_iff_dropWhile]
  intro hnone
  rw [segments, hnone] at h
  exact h (List.mem_singleton_self [])

/-- A suffix that is added is the last one. -/
theorem last?_append_dotted {name piece : Text} (hname : Solid name) (hne : piece ≠ [])
    (hdot : '.' ∉ piece) : last? (name ++ dotted piece) = some (dotted piece) := by
  have hends : [piece].map dotted <:+ ofName (name ++ ([piece].map dotted).flatten) :=
    suffix_ofName_append hname (by simp [hne, hdot])
  obtain ⟨earlier, hearlier⟩ := hends
  rw [List.map_singleton, List.flatten_singleton] at hearlier
  rw [last?, ← hearlier, List.getLast?_concat]

/-- **More suffixes** do not change what is left without them. -/
theorem strip_append_suffixes {name : Text} (hname : Solid name) {pieces : List Text}
    (h : ∀ piece ∈ pieces, piece ≠ [] ∧ '.' ∉ piece) :
    strip (name ++ (pieces.map dotted).flatten) = strip name := by
  induction pieces generalizing name with
  | nil => simp
  | cons piece rest ih =>
    obtain ⟨⟨hne, hdot⟩, hrest⟩ := List.forall_mem_cons.1 h
    have hlast := last?_append_dotted hname hne hdot
    calc strip (name ++ ((piece :: rest).map dotted).flatten)
        = strip (name ++ dotted piece ++ (rest.map dotted).flatten) := by simp
      _ = strip (name ++ dotted piece) := ih (hname.append_left _) hrest
      _ = strip ((name ++ dotted piece).take ((name ++ dotted piece).length - (dotted piece).length)) :=
          (strip_take_of_last? hlast).symm
      _ = strip name := by simp

/-- Leading dots and one segment have no suffix. -/
theorem ofName_of_segment {dots segment : Text} (hdots : ∀ c ∈ dots, (c == '.') = true)
    (hdot : '.' ∉ segment) : ofName (dots ++ segment) = [] := by
  have hcore : '.' ∉ (dots ++ segment).dropWhile (· == '.') := by
    rw [List.dropWhile_append_of_pos hdots]
    exact fun hmem => hdot ((List.dropWhile_suffix _).subset hmem)
  rw [ofName_eq, segments, Text.splitOn_of_not_mem hcore]
  simp

/-- **A name without empty segments** is what is left of it without suffixes, and then the suffixes. -/
theorem strip_append_ofName {name : Text} (h : [] ∉ segments name) :
    strip name ++ (ofName name).flatten = name := by
  by_cases hnone : ofName name = []
  · rw [strip_eq_self hnone, hnone, List.flatten_nil, List.append_nil]
  obtain ⟨first, rest, hsegments⟩ : ∃ first rest, segments name = first :: rest :=
    List.exists_cons_of_ne_nil (Text.splitOn_ne_nil '.' _)
  have hofName : ofName name = rest.map dotted := by
    rw [ofName_eq] at hnone ⊢
    split at hnone
    · exact absurd rfl hnone
    next hend => rw [if_neg hend, hsegments, List.drop_one, List.tail_cons]
  have hpieces : ∀ piece ∈ first :: rest, piece ≠ [] ∧ '.' ∉ piece := by
    intro piece hpiece
    rw [← hsegments] at hpiece
    exact ⟨fun hempty => h (hempty ▸ hpiece), Text.not_mem_of_mem_splitOn hpiece⟩
  obtain ⟨⟨hne, hdot⟩, hrest⟩ := List.forall_mem_cons.1 hpieces
  have hname := eq_append_of_segments hsegments
  have hsolid : Solid (name.takeWhile (· == '.') ++ first) := by
    obtain ⟨c, hc⟩ := List.exists_mem_of_ne_nil first hne
    exact ⟨c, List.mem_append_right _ hc, fun heq => hdot (heq ▸ hc)⟩
  have hdots : ∀ c ∈ name.takeWhile (· == '.'), (c == '.') = true := by
    intro c hc
    simpa using List.mem_takeWhile_imp hc
  have hstem : strip name = name.takeWhile (· == '.') ++ first := by
    conv_lhs => rw [← hname]
    rw [strip_append_suffixes hsolid hrest]
    exact strip_eq_self (ofName_of_segment hdots hdot)
  rw [hstem, hofName, hname]

end Suffix

/-! ## Rounds on a path -/

namespace Path

open Suffix (dotted)

/-- One round: the last suffix of the file name is taken away. -/
def Sheds (p q : Path) : Prop :=
  ∃ name suffix, p.nameText? = some name ∧ p.lastSuffix? = some suffix ∧
    q = p.withFileName (Utf8.encode (name.take (name.length - suffix.length)))

variable {p q r : Path} {name : List UInt8}

theorem properName_of_fileName? (h : p.fileName? = some name) : ProperName name := by
  obtain ⟨above, habove⟩ := fileName?_eq_some_iff.1 h
  exact properName_of_components habove

theorem exists_fileName? {text : Text} (h : p.nameText? = some text) :
    ∃ name, p.fileName? = some name ∧ Utf8.decodeLossy name = text := Option.map_eq_some_iff.1 h

/-- A round replaces the text of the file name by a shorter one with the same normal form. -/
theorem Sheds.exists_stem (h : Sheds p q) : ∃ (name : List UInt8) (stem : Text),
    p.fileName? = some name ∧ Suffix.ofName (Utf8.decodeLossy name) ≠ [] ∧ ProperText stem ∧
      stem.length < (Utf8.decodeLossy name).length ∧
      Suffix.strip stem = Suffix.strip (Utf8.decodeLossy name) ∧
      q = p.withFileName (Utf8.encode stem) := by
  obtain ⟨text, suffix, htext, hsuffix, rfl⟩ := h
  obtain ⟨name, hname, rfl⟩ := exists_fileName? htext
  rw [lastSuffix?, suffixes_eq hname] at hsuffix
  obtain ⟨stem, hsolid, hstem, hprefix⟩ := Suffix.take_of_last? hsuffix
  refine ⟨name, _, hname, ?_, ?_, Suffix.length_take_of_last? hsuffix,
    Suffix.strip_take_of_last? hsuffix, rfl⟩
  · intro hnone
    rw [hnone] at hsuffix
    cases hsuffix
  · rw [hstem]
    exact Suffix.properText_of_prefix (properName_of_fileName? hname).text hsolid hprefix

theorem nameText?_withFileName (h : p.fileName? = some name) {text : Text} (htext : ProperText text) :
    (p.withFileName (Utf8.encode text)).nameText? = some text := by
  rw [nameText?_eq (fileName?_withFileName h htext.encode), Utf8.decodeLossy_encode]

/-- **Rounds end**, since each one makes the file name shorter. -/
theorem wellFounded_sheds : WellFounded fun q p => Sheds p q := by
  refine Subrelation.wf ?_ (InvImage.wf (fun p : Path => (p.nameText?.getD []).length) Nat.lt_wfRel.wf)
  intro q p h
  obtain ⟨name, stem, hname, -, hstem, hlt, -, rfl⟩ := h.exists_stem
  show ((p.withFileName (Utf8.encode stem)).nameText?.getD []).length < (p.nameText?.getD []).length
  rw [nameText?_eq hname, nameText?_withFileName hname hstem]
  exact hlt

theorem withoutSuffixes_of_suffixes_eq_nil (h : p.suffixes = []) : p.withoutSuffixes = p := by
  cases hname : p.fileName? with
  | none => rw [withoutSuffixes, nameText?, hname, Option.map_none]
  | some name => rw [withoutSuffixes_eq_ite hname, if_pos (suffixes_eq hname ▸ h)]

theorem withoutSuffixes_eq (h : p.fileName? = some name)
    (hne : Suffix.ofName (Utf8.decodeLossy name) ≠ []) :
    p.withoutSuffixes = p.withFileName (Utf8.encode (Suffix.strip (Utf8.decodeLossy name))) := by
  rw [withoutSuffixes_eq_ite h, if_neg hne, stem, if_neg hne]

/-- **A round** does not change what is left in the end. -/
theorem Sheds.withoutSuffixes_eq (h : Sheds p q) : q.withoutSuffixes = p.withoutSuffixes := by
  obtain ⟨name, stem, hname, hne, hstem, -, hstrip, rfl⟩ := h.exists_stem
  have hstemName := fileName?_withFileName hname hstem.encode
  have hstemText := Utf8.decodeLossy_encode stem
  rw [Path.withoutSuffixes_eq hname hne, ← hstrip]
  by_cases hbare : Suffix.ofName stem = []
  · rw [Suffix.strip_eq_self hbare]
    exact withoutSuffixes_of_suffixes_eq_nil (by rw [suffixes_eq hstemName, hstemText, hbare])
  · rw [Path.withoutSuffixes_eq hstemName (by rwa [hstemText]), hstemText]
    exact withFileName_withFileName hname hstem.encode _

/-- There is a round as long as there are suffixes. -/
theorem exists_sheds_iff : (∃ q, Sheds p q) ↔ p.suffixes ≠ [] := by
  constructor
  · rintro ⟨q, name, suffix, -, hsuffix, -⟩ hnone
    rw [lastSuffix?, hnone] at hsuffix
    cases hsuffix
  · intro hne
    cases hname : p.nameText? with
    | none => simp [suffixes, hname] at hne
    | some name => exact ⟨_, name, _, hname, List.getLast?_eq_getLast_of_ne_nil hne, rfl⟩

/-- Rounds lead to the path without suffixes. -/
theorem reflTransGen_withoutSuffixes (p : Path) : Relation.ReflTransGen Sheds p p.withoutSuffixes := by
  induction p using wellFounded_sheds.induction with
  | _ p ih =>
    by_cases hbare : p.suffixes = []
    · rw [withoutSuffixes_of_suffixes_eq_nil hbare]
    · obtain ⟨q, hq⟩ := exists_sheds_iff.2 hbare
      rw [← hq.withoutSuffixes_eq]
      exact .head hq (ih q hq)

/-- Whatever rounds have been done, the same is left in the end. -/
theorem withoutSuffixes_eq_of_reflTransGen (h : Relation.ReflTransGen Sheds p r) :
    r.withoutSuffixes = p.withoutSuffixes := by
  induction h with
  | refl => rfl
  | tail _ hround ih => exact hround.withoutSuffixes_eq.trans ih

/-! ## The normal form -/

/-- What a path and its normal form have to do with each other. The file names are compared as the texts
in which suffixes are looked for, and byte for byte where they are valid UTF-8. -/
structure IsNormalForm (p r : Path) : Prop where
  suffixes : r.suffixes = []
  fixed : r.withoutSuffixes = r
  parent : r.parent? = p.parent?
  /-- Of the file name there remains a beginning that is a file name. -/
  name : ∀ name, p.nameText? = some name → ∃ stem, r.nameText? = some stem ∧
    stem ≠ [] ∧ stem ≠ ['.'] ∧ stem ≠ ['.', '.'] ∧ stem <+: name
  bytes : ∀ name, p.fileName? = some name → Utf8.isValid name = true →
    ∃ stem, r.fileName? = some stem ∧ ProperName stem ∧ stem <+: name
  whole : p.suffixes = [] → r = p
  /-- If no segment is empty, what is taken away are the suffixes. -/
  segments : ∀ name, p.nameText? = some name → [] ∉ Suffix.segments name →
    ∃ stem, r.nameText? = some stem ∧ name = stem ++ p.suffixes.flatten

theorem fileName?_withoutSuffixes (h : p.fileName? = some name) :
    p.withoutSuffixes.fileName? = some (stem name) := by
  obtain ⟨above, habove⟩ := fileName?_eq_some_iff.1 h
  exact fileName?_eq_some_iff.2 ⟨above, components_withoutSuffixes habove⟩

theorem nameText?_withoutSuffixes {text : Text} (h : p.nameText? = some text) :
    p.withoutSuffixes.nameText? = some (Suffix.strip text) := by
  obtain ⟨name, hname, rfl⟩ := exists_fileName? h
  rw [nameText?_eq (fileName?_withoutSuffixes hname), decodeLossy_stem]

theorem suffixes_withoutSuffixes (p : Path) : p.withoutSuffixes.suffixes = [] := by
  cases hname : p.nameText? with
  | none =>
    have hnone : p.suffixes = [] := by rw [Path.suffixes, hname, Option.map_none, Option.getD_none]
    rw [withoutSuffixes_of_suffixes_eq_nil hnone, hnone]
  | some name =>
    rw [Path.suffixes, nameText?_withoutSuffixes hname, Option.map_some, Option.getD_some,
      Suffix.ofName_strip]

theorem parent?_withoutSuffixes (p : Path) : p.withoutSuffixes.parent? = p.parent? := by
  by_cases hbare : p.suffixes = []
  · rw [withoutSuffixes_of_suffixes_eq_nil hbare]
  · obtain ⟨q, text, -, htext, -, -⟩ := exists_sheds_iff.2 hbare
    obtain ⟨name, hname, -⟩ := exists_fileName? htext
    rw [suffixes_eq hname] at hbare
    rw [withoutSuffixes_eq hname hbare]
    exact parent?_withFileName hname
      (Suffix.properText_strip (properName_of_fileName? hname).text).encode

/-- The rounds are over where the path without suffixes is reached, and nowhere else. -/
theorem final_iff : (Relation.ReflTransGen Sheds p r ∧ ∀ q, ¬ Sheds r q) ↔ r = p.withoutSuffixes := by
  constructor
  · rintro ⟨hreached, hfinal⟩
    have hbare : r.suffixes = [] := by
      by_contra hne
      obtain ⟨q, hq⟩ := exists_sheds_iff.2 hne
      exact hfinal q hq
    rw [← withoutSuffixes_eq_of_reflTransGen hreached, withoutSuffixes_of_suffixes_eq_nil hbare]
  · rintro rfl
    refine ⟨reflTransGen_withoutSuffixes p, fun q hq => ?_⟩
    exact exists_sheds_iff.1 ⟨q, hq⟩ (suffixes_withoutSuffixes p)

/-- What is left of a valid name is a beginning of it. -/
theorem stem_prefix (h : Utf8.isValid name = true) : stem name <+: name := by
  obtain ⟨rest, hrest⟩ := Suffix.prefix_stripWithin (Utf8.decodeLossy name).length (Utf8.decodeLossy name)
  refine ⟨Utf8.encode rest, ?_⟩
  rw [stem_of_isValid h, Suffix.strip, ← Utf8.encode_append, hrest, Utf8.encode_decodeLossy_of_isValid h]

theorem isNormalForm (p : Path) : IsNormalForm p p.withoutSuffixes where
  suffixes := suffixes_withoutSuffixes p
  fixed := withoutSuffixes_of_suffixes_eq_nil (suffixes_withoutSuffixes p)
  parent := parent?_withoutSuffixes p
  name := by
    intro text htext
    obtain ⟨name, hname, rfl⟩ := exists_fileName? htext
    obtain ⟨hne, hdot, hdots, -⟩ := Suffix.properText_strip (properName_of_fileName? hname).text
    exact ⟨_, nameText?_withoutSuffixes htext, hne, hdot, hdots, Suffix.prefix_stripWithin _ _⟩
  bytes name hname hvalid :=
    ⟨_, fileName?_withoutSuffixes hname, properName_stem (properName_of_fileName? hname),
      stem_prefix hvalid⟩
  whole := withoutSuffixes_of_suffixes_eq_nil
  segments := by
    intro text htext hsegments
    refine ⟨_, nameText?_withoutSuffixes htext, ?_⟩
    rw [Path.suffixes, htext, Option.map_some, Option.getD_some, Suffix.strip_append_ofName hsegments]

/-- The second path lies where the first one lies, and its name has some more suffixes. No segment of the
name of the first one is empty. -/
def MoreSuffixes (p q : Path) : Prop :=
  ∃ (above : List Component) (name : List UInt8) (pieces : List Text),
    p.components = above ++ [.name name] ∧ [] ∉ Suffix.segments (Utf8.decodeLossy name) ∧
      (∀ piece ∈ pieces, piece ≠ [] ∧ '.' ∉ piece) ∧
      q.components = above ++ [.name (name ++ Utf8.encode (pieces.map dotted).flatten)]

/-- What is left of a name does not depend on how many suffixes it has. -/
theorem decodeLossy_stem_append {pieces : List Text}
    (hname : [] ∉ Suffix.segments (Utf8.decodeLossy name))
    (h : ∀ piece ∈ pieces, piece ≠ [] ∧ '.' ∉ piece) :
    Utf8.decodeLossy (stem (name ++ Utf8.encode (pieces.map dotted).flatten)) =
      Utf8.decodeLossy (stem name) := by
  rw [decodeLossy_stem, decodeLossy_stem, Utf8.decodeLossy_append_encode,
    Suffix.strip_append_suffixes (Suffix.solid_of_segments hname) h]

/-- A name of which only valid bytes can be left is cut to its text. -/
theorem stem_eq_encode (h : Utf8.isValid name = true ∨ Suffix.ofName (Utf8.decodeLossy name) ≠ []) :
    stem name = Utf8.encode (Utf8.decodeLossy (stem name)) := by
  rw [decodeLossy_stem]
  rcases h with h | h
  · exact stem_of_isValid h
  · rw [stem, if_neg h]

/-- **The key of a name with more suffixes** has the same text, and the same bytes unless the name has stray
bytes and no suffix. -/
theorem MoreSuffixes.sameKey (h : MoreSuffixes p q) :
    q.withoutSuffixes.nameText? = p.withoutSuffixes.nameText? ∧
      q.withoutSuffixes.components.dropLast = p.withoutSuffixes.components.dropLast ∧
      ((∀ name, p.fileName? = some name → Utf8.isValid name = true) ∨ p.suffixes ≠ [] →
        q.withoutSuffixes.same p.withoutSuffixes = true) := by
  obtain ⟨above, name, pieces, hp, hsegments, hpieces, hq⟩ := h
  have hname : p.fileName? = some name := fileName?_eq_some_iff.2 ⟨above, hp⟩
  have htext := decodeLossy_stem_append hsegments hpieces
  have hleft := components_withoutSuffixes hp
  have hleft' := components_withoutSuffixes hq
  refine ⟨?_, by rw [hleft, hleft', List.dropLast_concat, List.dropLast_concat], fun hvalid => ?_⟩
  · rw [nameText?_eq (fileName?_eq_some_iff.2 ⟨above, hleft⟩),
      nameText?_eq (fileName?_eq_some_iff.2 ⟨above, hleft'⟩), htext]
  · rw [same_iff, hleft, hleft']
    by_cases hnone : pieces = []
    · rw [hnone, List.map_nil, List.flatten_nil]
      show _ ++ [Component.name (stem (name ++ []))] = _
      rw [List.append_nil]
    · have hown : Utf8.isValid name = true ∨ Suffix.ofName (Utf8.decodeLossy name) ≠ [] :=
        hvalid.imp (fun h => h name hname) fun h => suffixes_eq hname ▸ h
      have hmore : Suffix.ofName
          (Utf8.decodeLossy (name ++ Utf8.encode (pieces.map dotted).flatten)) ≠ [] := by
        rw [Utf8.decodeLossy_append_encode]
        obtain ⟨earlier, hearlier⟩ :=
          Suffix.suffix_ofName_append (Suffix.solid_of_segments hsegments) hpieces
        rw [← hearlier]
        simp [hnone]
      rw [stem_eq_encode (.inr hmore), htext, ← stem_eq_encode hown]

/-- **The path without suffixes is a normal form.** Rounds that take one suffix away end, and they end in it;
it lies where the path lies and has a beginning of its name. The key by which files are paired is the same
for two files of a directory of which one has some more suffixes than the other. -/
theorem normalForm_of_rounds (p : Path) :
    Acc (fun q p => Sheds p q) p ∧
      (∀ r, (Relation.ReflTransGen Sheds p r ∧ ∀ q, ¬ Sheds r q) ↔ r = p.withoutSuffixes) ∧
      IsNormalForm p p.withoutSuffixes ∧
      ∀ q, MoreSuffixes p q → q.withoutSuffixes.nameText? = p.withoutSuffixes.nameText? ∧
        q.withoutSuffixes.components.dropLast = p.withoutSuffixes.components.dropLast ∧
        ((∀ name, p.fileName? = some name → Utf8.isValid name = true) ∨ p.suffixes ≠ [] →
          q.withoutSuffixes.same p.withoutSuffixes = true) :=
  ⟨wellFounded_sheds.apply p, fun _ => final_iff, isNormalForm p, fun _ h => h.sameKey⟩

/-- A hidden file with suffixes, and what is left of it with one suffix more. -/
theorem normalForm_of_rounds_on_hidden_file :
    let p : Path := ⟨"../rules//.a.x.test.yaml/".toList⟩
    let q : Path := ⟨"../rules/./.a.x.test.yaml.fixed".toList⟩
    MoreSuffixes p q ∧ Relation.ReflTransGen Sheds p ⟨"../rules/.a".toList⟩ ∧
      IsNormalForm p ⟨"../rules/.a".toList⟩ ∧
      q.withoutSuffixes.same ⟨"../rules/.a".toList⟩ = true := by
  intro p q
  have hmore : MoreSuffixes p q :=
    ⟨[.up, .name "rules".toList], ".a.x.test.yaml".toList, ["fixed".toList], by decide⟩
  have hleft : (⟨"../rules/.a".toList⟩ : Path) = p.withoutSuffixes := by decide
  have hsuffixes : p.suffixes ≠ [] := by decide
  obtain ⟨-, hrounds, hnormal, hkey⟩ := normalForm_of_rounds p
  rw [← hleft] at hnormal hkey
  exact ⟨hmore, ((hrounds _).2 hleft).1, hnormal, (hkey q hmore).2.2 (.inr hsuffixes)⟩

/-- Behind an empty segment suffixes are left over. -/
example : withoutSuffixes ⟨"a/b..c.d".toList⟩ = ⟨"a/b.".toList⟩ ∧
    withoutSuffixes ⟨"a/b.c.".toList⟩ = ⟨"a/b.c.".toList⟩ := by
  decide

/-- **A stray byte** in a name with suffixes becomes a replacement character, so what is left is no beginning of
the name. -/
theorem normalForm_of_stray_byte :
    let p : Path := ⟨0xFF :: Utf8.encode ".py".toList⟩
    p.withoutSuffixes = ⟨"\uFFFD".toList⟩ ∧
      ¬ ∃ name left, p.fileName? = some name ∧ p.withoutSuffixes.fileName? = some left ∧ left <+: name := by
  intro p
  refine ⟨by decide, ?_⟩
  rintro ⟨name, left, hname, hleft, hprefix⟩
  obtain rfl : name = p.bytes := Option.some.inj (hname.symm.trans (by decide))
  obtain rfl : left = Utf8.encode "\uFFFD".toList := Option.some.inj (hleft.symm.trans (by decide))
  revert hprefix
  decide

end Path

end RuleAudit
