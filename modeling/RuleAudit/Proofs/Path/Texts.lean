import RuleAudit.Proofs.Path.Components

/-!
# Paths by way of their texts

A listing looks for its root by the text of the root. The path that this text names has the components of the
root, each by way of its own text, since slashes and dots read as themselves. So it is the root itself if that
is valid UTF-8, and otherwise a path that differs from it in a name.
-/

namespace RuleAudit

/-! ## Pieces -/

theorem slash_lt : slash.toNat < 0x80 := by decide

theorem not_mem_viaText {bytes : List UInt8} (h : slash ∉ bytes) : slash ∉ Utf8.viaText bytes :=
  fun hmem => h (Utf8.mem_of_mem_viaText (by decide) slash_lt hmem)

theorem viaText_intercalate (pieces : List (List UInt8)) :
    Utf8.viaText (List.intercalate [slash] pieces) =
      List.intercalate [slash] (pieces.map Utf8.viaText) := by
  induction pieces with
  | nil => rfl
  | cons piece rest ih =>
    cases rest with
    | nil => simp
    | cons next rest =>
      rw [List.intercalate_cons_cons, List.append_assoc, List.singleton_append,
        Utf8.viaText_append_cons _ slash_lt, ih]
      simp

/-- The pieces between slashes, each by way of its text. -/
theorem splitOn_viaText (bytes : List UInt8) :
    Text.splitOn slash (Utf8.viaText bytes) = (Text.splitOn slash bytes).map Utf8.viaText := by
  have hpieces := viaText_intercalate (Text.splitOn slash bytes)
  rw [Text.intercalate_splitOn] at hpieces
  rw [hpieces, Text.splitOn_intercalate]
  · simp [Text.splitOn_ne_nil]
  · intro piece hpiece
    obtain ⟨old, hold, rfl⟩ := List.mem_map.1 hpiece
    exact not_mem_viaText (Text.not_mem_of_mem_splitOn hold)

theorem viaText_eq_nil_iff {bytes : List UInt8} : Utf8.viaText bytes = [] ↔ bytes = [] :=
  ⟨fun h => Utf8.eq_encode_of_viaText (t := []) h (by decide), fun h => by rw [h]; rfl⟩

theorem viaText_eq_dot_iff {bytes : List UInt8} : Utf8.viaText bytes = [dot] ↔ bytes = [dot] :=
  ⟨fun h => Utf8.eq_encode_of_viaText (t := ['.']) h (by decide), fun h => by rw [h]; decide⟩

theorem viaText_eq_dots_iff {bytes : List UInt8} :
    Utf8.viaText bytes = [dot, dot] ↔ bytes = [dot, dot] :=
  ⟨fun h => Utf8.eq_encode_of_viaText (t := ['.', '.']) h (by decide), fun h => by rw [h]; decide⟩

theorem ProperName.viaText {name : List UInt8} (h : ProperName name) : ProperName (Utf8.viaText name) :=
  h.text.encode

/-- A name by way of its text. -/
def Name.viaText (name : Name) : Name := ⟨Utf8.viaText name.bytes, name.proper.viaText⟩

/-! ## Components -/

/-- A component by way of its text. -/
def Component.viaText : Component → Component
  | .name bytes => .name (Utf8.viaText bytes)
  | c => c

namespace Path

theorem component?_viaText (leading : Bool) (piece : List UInt8) :
    component? leading (Utf8.viaText piece) = (component? leading piece).map Component.viaText := by
  simp only [component?, viaText_eq_nil_iff, viaText_eq_dot_iff, viaText_eq_dots_iff]
  split_ifs <;> rfl

theorem innerComponents_viaText (pieces : List (List UInt8)) :
    innerComponents (pieces.map Utf8.viaText) = (innerComponents pieces).map Component.viaText := by
  rw [innerComponents, innerComponents, List.filterMap_map, List.map_filterMap]
  exact List.filterMap_congr fun piece _ => component?_viaText false piece

theorem piecesComponents_viaText (pieces : List (List UInt8)) :
    piecesComponents (pieces.map Utf8.viaText) = (piecesComponents pieces).map Component.viaText := by
  cases pieces with
  | nil => rfl
  | cons first rest =>
    rw [List.map_cons, piecesComponents, piecesComponents, innerComponents_viaText, component?_viaText,
      List.map_append]
    cases component? true first <;> rfl

/-- A path starts at the root if its first piece is empty and another one follows. -/
theorem isAbsolute_iff_splitOn {p : Path} :
    p.isAbsolute = true ↔ ∃ rest, rest ≠ [] ∧ Text.splitOn slash p.bytes = [] :: rest := by
  obtain ⟨bytes⟩ := p
  cases bytes with
  | nil => simp [isAbsolute, Text.splitOn]
  | cons b rest =>
    by_cases hb : b = slash
    · subst hb
      have hpieces : Text.splitOn slash (slash :: rest) = [] :: Text.splitOn slash rest := if_pos rfl
      exact iff_of_true rfl ⟨_, Text.splitOn_ne_nil slash rest, hpieces⟩
    · refine iff_of_false (by simpa [isAbsolute] using hb) ?_
      rintro ⟨more, -, hpieces⟩
      exact Text.ne_nil_of_splitOn_cons (List.cons_ne_nil b rest) (by simpa using hb) hpieces rfl

theorem isAbsolute_viaText (p : Path) : p.viaText.isAbsolute = p.isAbsolute := by
  have hpieces : Text.splitOn slash p.viaText.bytes = (Text.splitOn slash p.bytes).map Utf8.viaText :=
    splitOn_viaText p.bytes
  rw [Bool.eq_iff_iff, isAbsolute_iff_splitOn, isAbsolute_iff_splitOn, hpieces]
  constructor
  · rintro ⟨rest, hrest, hsplit⟩
    obtain ⟨first, more, hmore, hfirst, rfl⟩ := List.map_eq_cons_iff.1 hsplit
    exact ⟨more, by simpa using hrest, by rw [hmore, viaText_eq_nil_iff.1 hfirst]⟩
  · rintro ⟨rest, hrest, hsplit⟩
    exact ⟨rest.map Utf8.viaText, by simpa using hrest, by rw [hsplit]; rfl⟩

/-- **The text of a path** names a path with the same components, each by way of its text. -/
theorem components_viaText (p : Path) : p.viaText.components = p.components.map Component.viaText := by
  have hpieces : Text.splitOn slash p.viaText.bytes = (Text.splitOn slash p.bytes).map Utf8.viaText :=
    splitOn_viaText p.bytes
  rw [components, components, isAbsolute_viaText, hpieces, piecesComponents_viaText, List.map_append]
  cases p.isAbsolute <;> rfl

/-- **A path that is valid UTF-8** is named by its text. -/
theorem viaText_of_isValid {p : Path} (h : Utf8.isValid p.bytes = true) : p.viaText = p :=
  Path.ext (Utf8.viaText_eq_self_iff.2 h)

theorem viaText_viaText (p : Path) : p.viaText.viaText = p.viaText :=
  Path.ext (Utf8.viaText_viaText p.bytes)

/-- Spellings of one path have texts that spell one path. -/
theorem same_viaText {p q : Path} (h : p.same q = true) : p.viaText.same q.viaText = true := by
  rw [same_iff, components_viaText, components_viaText, same_iff.1 h]

/-- Paths with one text are one path if they are valid UTF-8. -/
theorem eq_of_display_eq {p q : Path} (hp : Utf8.isValid p.bytes = true)
    (hq : Utf8.isValid q.bytes = true) (h : p.display = q.display) : p = q := by
  rw [← viaText_of_isValid hp, ← viaText_of_isValid hq, viaText, viaText, h]

/-- Paths that share a text are spellings of one path. -/
def TextsApart (paths : List Path) : Prop :=
  ∀ p ∈ paths, ∀ q ∈ paths, p.display = q.display → p.same q = true

instance (paths : List Path) : Decidable (TextsApart paths) :=
  inferInstanceAs (Decidable (∀ p ∈ paths, ∀ q ∈ paths, _ → _))

theorem TextsApart.mono {paths paths' : List Path} (h : TextsApart paths') (hsub : ∀ p ∈ paths, p ∈ paths') :
    TextsApart paths :=
  fun p hp q hq => h p (hsub p hp) q (hsub q hq)

end Path

end RuleAudit
