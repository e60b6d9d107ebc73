import Mathlib.Data.List.Induction
import RuleAudit.Proofs.Files.Reach

/-!
# Normal paths

A normal path is the absolute path of a place, with one slash before each name and nothing else. What a path
names is normalized to such a path. Going down some names from a normal path and up to its parent again is
going down and up in the place. A listing of a directory starts from its normal path as it stands, or from the
normal path that its text names if that is another one.
-/

namespace RuleAudit

/-- The path is that of a place: it is absolute, and its names stand between single slashes. -/
def Path.Normal (p : Path) : Prop := ∃ place : Place, p = place.path

theorem Path.Normal.isAbsolute {p : Path} (h : p.Normal) : p.isAbsolute = true := by
  obtain ⟨place, rfl⟩ := h
  exact Place.isAbsolute_path place

namespace Place

theorem path_cons (name : Name) {place : Place} (hne : place ≠ []) :
    path (name :: place) = ⟨place.path.bytes ++ slash :: name.bytes⟩ := by
  simp [path, hne]

/-- The path of a place ends in a slash only at the root. -/
theorem getLast?_path {place : Place} (hne : place ≠ []) : place.path.bytes.getLast? ≠ some slash := by
  obtain ⟨name, above, rfl⟩ := List.exists_cons_of_ne_nil hne
  have hbytes : (path (name :: above)).bytes =
      above.reverse.flatMap (fun name => slash :: name.bytes) ++ slash :: name.bytes := by
    simp [path]
  rw [hbytes, List.getLast?_append_cons, List.getLast?_cons_of_ne_nil name.proper.1]
  intro hlast
  exact name.proper.2.2.2 (List.mem_of_getLast? hlast)

/-- **The parent of the path of a place** is the path of the place above. -/
theorem parent?_path (name : Name) (place : Place) :
    (path (name :: place)).parent? = some place.path := by
  have hpieces : ([] :: (name :: place).reverse.map Name.bytes).reverse =
      name.bytes :: (place.map Name.bytes ++ [[]]) := by simp
  rw [Path.parent?, splitOn_path (List.cons_ne_nil _ _), hpieces, Path.dropUncounted_cons name.proper]
  cases place with
  | nil =>
    have habs : (path [name]).isAbsolute = true := isAbsolute_path [name]
    simp only [List.map_nil, List.nil_append, Path.dropUncounted, Path.counts, Path.component?, habs]
    rfl
  | cons last above =>
    have hbytes := bytes_path (List.cons_ne_nil last above)
    simp only [List.map_cons, List.cons_append, Path.dropUncounted_cons last.proper]
    rw [Option.some.injEq, Path.ext_iff, hbytes]
    simp

/-- The text of the path of a place names the place whose names are read by way of their texts. -/
theorem viaText_path (place : Place) : place.path.viaText = Place.path (place.map Name.viaText) := by
  by_cases hne : place = []
  · subst hne
    decide
  have hbytes : ∀ names : List Name, Utf8.viaText (names.flatMap fun name => slash :: name.bytes) =
      (names.map Name.viaText).flatMap fun name => slash :: name.bytes := by
    intro names
    induction names using List.reverseRecOn with
    | nil => rfl
    | append_singleton names name ih =>
      rw [List.flatMap_append, List.flatMap_singleton, Utf8.viaText_append_cons _ slash_lt, ih]
      simp [Name.viaText]
  have hne' : place.map Name.viaText ≠ [] := by simpa using hne
  rw [path, path, if_neg (by simpa using hne), if_neg (by simpa using hne'), ← List.map_reverse, ← hbytes]
  rfl

end Place

theorem Path.Normal.viaText {p : Path} (h : p.Normal) : p.viaText.Normal := by
  obtain ⟨place, rfl⟩ := h
  exact ⟨_, Place.viaText_path place⟩

namespace World

variable {w : World} {p start : Path} {place : Place}

theorem childOf_path (place : Place) (name : Name) :
    childOf place.path name.bytes = Place.path (name :: place) := by
  rw [childOf, if_neg (not_isCurrent (Place.isAbsolute_path place)), Path.join,
    if_neg (by simp [Path.isAbsolute_of_properName name.proper])]
  by_cases hne : place = []
  · subst hne
    simp [Place.path]
  · have hempty : place.path.bytes ≠ [] :=
      (extends_of_isAbsolute (Place.isAbsolute_path place)).bytes_ne_nil
    rw [if_neg (by simp [hempty, Place.getLast?_path hne]), Place.path_cons name hne]

/-- **Some names below the path of a place** are names below the place. -/
theorem down_path (place : Place) (names : List Name) :
    down place.path names = Place.path (names.reverse ++ place) := by
  induction names generalizing place with
  | nil => rfl
  | cons name rest ih =>
    rw [down_cons, childOf_path, ih, List.reverse_cons, List.append_assoc, List.singleton_append]

/-- Entering pieces that are names puts these behind the path. -/
theorem eq_down_of_foldlM_enter {names : List Name}
    (h : (names.map Name.bytes).foldlM (fun p piece => w.enter p piece) p = some start) :
    start = down p names := by
  induction names generalizing p with
  | nil => exact (Option.some.inj h).symm
  | cons name rest ih =>
    rw [List.map_cons, List.foldlM_cons, Option.bind_eq_bind, Option.bind_eq_some_iff] at h
    obtain ⟨next, hnext, h⟩ := h
    rw [ih h, eq_childOf_of_enter hnext]
    rfl

/-- A listing of a normal path starts nowhere but from the path that its text names. -/
theorem eq_viaText_of_scope (h : p.Normal) (hstart : w.scope? p = some start) : start = p.viaText := by
  obtain ⟨place, hplace⟩ := h.viaText
  obtain ⟨rest, hbytes, hscope⟩ := scope?_eq h.isAbsolute
  rw [hplace] at hbytes ⊢
  rw [hscope] at hstart
  by_cases hne : place = []
  · subst hne
    obtain rfl : rest = [] := (List.cons.inj hbytes).2.symm
    exact (Option.some.inj hstart).symm
  · have hpieces := Place.splitOn_path hne
    rw [hbytes, Text.splitOn, if_pos rfl, List.cons.injEq] at hpieces
    rw [hpieces.2] at hstart
    have hpath := down_path [] place.reverse
    rw [List.reverse_reverse, List.append_nil] at hpath
    rw [eq_down_of_foldlM_enter hstart, ← hpath]
    rfl

/-- **A listing of a directory starts** from its normal path as its text names it. -/
theorem scope?_of_normal (h : p.Normal) (hdir : w.isDirectory p.viaText = true) :
    w.scope? p = some p.viaText := by
  obtain ⟨start, hstart, -⟩ := exists_scope p.viaText_viaText (.inl h.viaText.isAbsolute) hdir
  rw [scope?_viaText] at hstart
  rw [hstart, eq_viaText_of_scope h hstart]

/-- What a path names is normalized to a normal path. -/
theorem normal_normalize (h : w.has p = true) : (w.normalize p).Normal := by
  rw [has] at h
  rw [normalize]
  cases hloc : w.locate p with
  | error e =>
    rw [hloc] at h
    cases h
  | ok found => exact ⟨found.1, rfl⟩

/-! ## Below a normal path -/

theorem normal_down (h : p.Normal) (names : List Name) : (down p names).Normal := by
  obtain ⟨place, rfl⟩ := h
  exact ⟨names.reverse ++ place, down_path place names⟩

/-- The parent of what lies some names below a normal path is one name less below it. -/
theorem parent?_down (h : p.Normal) (dirs : List Name) (name : Name) :
    (down p (dirs ++ [name])).parent? = some (down p dirs) := by
  obtain ⟨place, hdown⟩ := normal_down h dirs
  rw [← down_append, hdown, down_path]
  exact Place.parent?_path name place

/-- What something lies below is a directory. -/
theorem isDirectory_of_has_down (hp : p.bytes ≠ []) {names : List Name} (hne : names ≠ [])
    (h : w.has (down p names) = true) : w.isDirectory p = true := by
  cases hloc : w.locate (down p names) with
  | error e => simp [has, hloc, Except.isOk, Except.toBool] at h
  | ok found =>
    obtain ⟨-, place, -, hplace, -⟩ := exists_way_down hp hne hloc
    rw [isDirectory, hplace]

/-- **A listing of a normal path** reaches what lies some names below the path that its text names, as far as
something is there and its own name is valid UTF-8. -/
theorem mem_everythingBelow_normal (h : p.Normal) {q : Path} (hq : w.has q = true) :
    q ∈ w.everythingBelow p ↔
      ∃ dirs name, q = down p.viaText (dirs ++ [name]) ∧ Utf8.isValid name.bytes = true := by
  have hne := (extends_of_isAbsolute h.viaText.isAbsolute).bytes_ne_nil
  constructor
  · intro hmem
    obtain ⟨start, hstart, hbelow⟩ := exists_scope_of_mem hmem
    obtain rfl := eq_viaText_of_scope h hstart
    exact exists_down_of_mem_below hbelow
  · rintro ⟨dirs, name, rfl, hvalid⟩
    have hdir := isDirectory_of_has_down hne (by simp) hq
    exact (mem_everythingBelow_iff (scope?_of_normal h hdir) hne hq).2 ⟨dirs, name, rfl, hvalid⟩

end World

end RuleAudit
