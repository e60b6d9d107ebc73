import RuleAudit.Proofs.Settings.Search
import RuleAudit.Settings.Effective

/-!
# Precedence of settings

One settings file counts: the first one of the directory where the search ends. If nothing can be made of it,
it is as if it were empty, and no other file is looked at. A value from the command line comes before one from
this file, and that before the default.
-/

namespace RuleAudit

/-! ## Values -/

/-- The value of a setting: the given one, or else that of the file, or else the default. -/
inductive Chosen {α : Type} (given file : Option α) (default : α) : α → Prop where
  | given {v : α} (given_eq : given = some v) : Chosen given file default v
  | file {v : α} (given_eq : given = none) (file_eq : file = some v) : Chosen given file default v
  | default (given_eq : given = none) (file_eq : file = none) : Chosen given file default default

theorem chosen_getD {α : Type} (given file : Option α) (default : α) :
    Chosen given file default ((given.or file).getD default) := by
  cases hgiven : given with
  | some v => exact .given rfl
  | none =>
    cases hfile : file with
    | some v => exact .file rfl rfl
    | none => exact .default rfl rfl

/-- The same where the default is to leave the setting open. -/
theorem chosen_or {α : Type} (given file : Option α) :
    Chosen (given.map some) (file.map some) none (given.or file) := by
  have hopen : ((given.map some).or (file.map some)).getD none = given.or file := by
    cases given <;> cases file <;> rfl
  rw [← hopen]
  exact chosen_getD _ _ _

/-- The settings of a run are put together from given ones and those of a file in the directory `root`. -/
structure GivenSettings.Merges (o : GivenSettings) (root : Path) (s : FileSettings)
    (e : EffectiveSettings) : Prop where
  root_eq : e.root = root
  target : e.target = ⟨o.target⟩
  config : Chosen ((o.config.map fun c : Text => (⟨c⟩ : Path)).map some)
    ((s.config.map fun c : Text => root.join ⟨c⟩).map some) none e.config
  engine : Chosen o.engine s.engine "semgrep".toList e.engine
  strict : Chosen o.strict s.strict false e.strict
  json : Chosen o.json s.json false e.json
  deep : Chosen o.deep s.deep false e.deep
  optimizations : Chosen o.optimizations s.optimizations .none e.optimizations
  saveArchive : Chosen o.saveArchive s.saveArchive true e.saveArchive
  /-- The default is left open here: it is the number of processors. -/
  jobs : Chosen (o.jobs.map some) (s.jobs.map some) none e.jobs

theorem GivenSettings.merges_over (o : GivenSettings) (root : Path) (s : FileSettings) :
    o.Merges root s (o.over root s) where
  root_eq := rfl
  target := rfl
  config := chosen_or _ _
  engine := chosen_getD _ _ _
  strict := chosen_getD _ _ _
  json := chosen_getD _ _ _
  deep := chosen_getD _ _ _
  optimizations := chosen_getD _ _ _
  saveArchive := chosen_getD _ _ _
  jobs := chosen_or _ _

/-- A path in a file is seen from the directory `root`: an absolute one stands for itself, and the components
of any other one come behind those of the directory. -/
structure Path.SeenFrom (root : Path) (text : Text) (p : Path) : Prop where
  absolute : isAbsolute ⟨text⟩ = true → p = ⟨text⟩
  relative : isAbsolute ⟨text⟩ = false →
    p.components = root.components ++ innerComponents (Text.splitOn slash text)

theorem Path.seenFrom_join {root : Path} (hroot : root.isAbsolute = true) (text : Text) :
    root.SeenFrom text (root.join ⟨text⟩) where
  absolute := fun habs => by rw [join, if_pos habs]
  relative := fun hrel => components_join (World.extends_of_isAbsolute hroot).bytes_ne_nil hrel

/-- The formats are looked for one after the other. -/
theorem FileSettings.Format.find?_all (p : FileSettings.Format → Bool) : all.find? p =
    if p .toml then some .toml
    else if p .yaml then some .yaml
    else if p .yml then some .yml
    else Option.none := by
  rw [all, List.find?, List.find?, List.find?]
  cases p .toml <;> cases p .yaml <;> cases p .yml <;> rfl

namespace World

variable {w w' : World} {start root dir : Path} {f : FileSettings.Format} {s : FileSettings}

/-! ## The file that counts -/

/-- The first settings file of a directory. -/
inductive FirstFile (w : World) (dir : Path) : FileSettings.Format → Prop where
  | toml (toml : w.Holds dir "ruletest.toml") : FirstFile w dir .toml
  | yaml (toml : ¬ w.Holds dir "ruletest.toml") (yaml : w.Holds dir "ruletest.yaml") :
    FirstFile w dir .yaml
  | yml (toml : ¬ w.Holds dir "ruletest.toml") (yaml : ¬ w.Holds dir "ruletest.yaml")
    (yml : w.Holds dir "ruletest.yml") : FirstFile w dir .yml

theorem find?_format_eq_some_iff :
    (FileSettings.Format.all.find? fun f => w.has (dir.join ⟨f.fileName⟩)) = some f ↔
      w.FirstFile dir f := by
  rw [FileSettings.Format.find?_all]
  show (if w.Holds dir "ruletest.toml" then some .toml
    else if w.Holds dir "ruletest.yaml" then some .yaml
    else if w.Holds dir "ruletest.yml" then some .yml
    else none) = some f ↔ w.FirstFile dir f
  constructor
  · intro h
    split at h
    next toml =>
      obtain rfl := Option.some.inj h
      exact .toml toml
    next toml =>
      split at h
      next yaml =>
        obtain rfl := Option.some.inj h
        exact .yaml toml yaml
      next yaml =>
        split at h
        next yml =>
          obtain rfl := Option.some.inj h
          exact .yml toml yaml yml
        next => cases h
  · intro h
    cases h with
    | toml toml => rw [if_pos toml]
    | yaml toml yaml => rw [if_neg toml, if_pos yaml]
    | yml toml yaml yml => rw [if_neg toml, if_neg yaml, if_pos yml]

/-- The file can be read, its bytes are a text, and the text is settings in the format. -/
def Reads (w : World) (p : Path) (f : FileSettings.Format) (s : FileSettings) : Prop :=
  ∃ bytes text, w.read p = .ok bytes ∧ Utf8.decode? bytes = some text ∧ f.read? text = some s

theorem loadSettings_of_firstFile (h : w.FirstFile dir f) : w.loadSettings dir =
    ((w.read (dir.join ⟨f.fileName⟩)).toOption.bind Utf8.decode?).bind f.read? := by
  simp only [loadSettings, find?_format_eq_some_iff.2 h]
  cases w.read (dir.join ⟨f.fileName⟩) <;> rfl

theorem loadSettings_eq_some_iff (h : w.FirstFile dir f) :
    w.loadSettings dir = some s ↔ w.Reads (dir.join ⟨f.fileName⟩) f s := by
  rw [loadSettings_of_firstFile h]
  cases hread : w.read (dir.join ⟨f.fileName⟩) with
  | error e => simp [Reads, hread, Except.toOption]
  | ok bytes => simp [Reads, hread, Except.toOption, Option.bind_eq_some_iff]

/-- The settings that the files of a directory give. -/
inductive SettingsIn (w : World) (dir : Path) : FileSettings → Prop where
  | usable {f : FileSettings.Format} {s : FileSettings} (first : w.FirstFile dir f)
      (reads : w.Reads (dir.join ⟨f.fileName⟩) f s) : SettingsIn w dir s
  /-- If nothing can be made of the first file, it gives no settings. -/
  | unusable {f : FileSettings.Format} (first : w.FirstFile dir f)
      (unread : ∀ s, ¬ w.Reads (dir.join ⟨f.fileName⟩) f s) : SettingsIn w dir FileSettings.none
  | absent (absent : ∀ name ∈ ["ruletest.toml", "ruletest.yaml", "ruletest.yml"], ¬ w.Holds dir name) :
      SettingsIn w dir FileSettings.none

theorem settingsIn_loadSettings : w.SettingsIn dir ((w.loadSettings dir).getD FileSettings.none) := by
  cases hfirst : FileSettings.Format.all.find? fun f => w.has (dir.join ⟨f.fileName⟩) with
  | some f =>
    have hfile := find?_format_eq_some_iff.1 hfirst
    cases hload : w.loadSettings dir with
    | some s => exact .usable hfile ((loadSettings_eq_some_iff hfile).1 hload)
    | none =>
      refine .unusable hfile fun s hreads => ?_
      rw [(loadSettings_eq_some_iff hfile).2 hreads] at hload
      cases hload
  | none =>
    rw [loadSettings, hfirst]
    refine .absent fun name hname hholds => ?_
    have hall : ["ruletest.toml", "ruletest.yaml", "ruletest.yml"].map String.toList =
        FileSettings.Format.all.map FileSettings.Format.fileName := rfl
    obtain ⟨f, hf, hfile⟩ := List.mem_map.1 (hall ▸ List.mem_map_of_mem hname)
    exact List.find?_eq_none.1 hfirst f hf (hfile ▸ hholds)

/-! ## What the settings depend on -/

/-- The two worlds mark alike what the search looks at, and the file that counts has the same bytes. -/
structure Alike (w w' : World) (start : Path) : Prop where
  marks : w.MarksAlike w' start
  file : ∀ f, w.FirstFile (w.findRoot start) f →
    w'.read ((w.findRoot start).join ⟨f.fileName⟩) = w.read ((w.findRoot start).join ⟨f.fileName⟩)

theorem loadSettings_congr (h : w.Alike w' start) :
    w'.loadSettings (w.findRoot start) = w.loadSettings (w.findRoot start) := by
  have hholds := h.marks _ looksAt_findRoot
  have hsame : (fun f : FileSettings.Format => w'.has ((w.findRoot start).join ⟨f.fileName⟩)) =
      fun f => w.has ((w.findRoot start).join ⟨f.fileName⟩) := by
    funext f
    apply Bool.eq_iff_iff.2
    cases f with
    | toml => exact hholds "ruletest.toml" (by simp)
    | yaml => exact hholds "ruletest.yaml" (by simp)
    | yml => exact hholds "ruletest.yml" (by simp)
  cases hfirst : FileSettings.Format.all.find? fun f => w.has ((w.findRoot start).join ⟨f.fileName⟩) with
  | none => rw [loadSettings, loadSettings, hsame, hfirst]
  | some f =>
    have hfile := find?_format_eq_some_iff.1 hfirst
    have hfile' : w'.FirstFile (w.findRoot start) f := by
      rw [← find?_format_eq_some_iff, hsame]
      exact hfirst
    rw [loadSettings_of_firstFile hfile', loadSettings_of_firstFile hfile, h.file f hfile]

/-- **The settings of a run** come from the command line, from the first settings file of the nearest marked
directory at or above the start, and from the defaults, in this order. The way up ends and passes each
beginning of the start, and nothing that is not looked at has any influence. -/
theorem effectiveSettings_of_search (w : World) {o : GivenSettings} {start : Path}
    (hstart : o.start = some start) (habs : start.isAbsolute = true) :
    Acc (fun above dir : Path => dir.parent? = some above) start ∧
      (∀ cs, (∃ dir, start.AtOrAbove dir ∧ dir.components = cs) ↔ cs ≠ [] ∧ cs <+: start.components) ∧
      (∀ place : Place, start = place.path → ∀ dir, start.AtOrAbove dir ↔
        ∃ above, above <:+ place ∧ dir = Place.path above) ∧
      w.EndsIn start (w.findRoot start) ∧
      (∃ s, w.SettingsIn (w.findRoot start) s ∧
        o.Merges (w.findRoot start) s (w.effectiveSettings o)) ∧
      (∀ text, (w.findRoot start).SeenFrom text ((w.findRoot start).join ⟨text⟩)) ∧
      ∀ w', w.Alike w' start → w'.effectiveSettings o = w.effectiveSettings o := by
  have hends : w.EndsIn start (w.findRoot start) := endsIn_findRoot habs
  have heffective : ∀ w : World, w.effectiveSettings o =
      o.over (w.findRoot start) ((w.loadSettings (w.findRoot start)).getD FileSettings.none) := by
    intro w
    rw [effectiveSettings, hstart]
    rfl
  refine ⟨Path.wellFounded_parent?.apply start, fun cs => Path.exists_atOrAbove_iff habs, ?_, hends,
    ⟨_, settingsIn_loadSettings, ?_⟩, Path.seenFrom_join (hends.isAbsolute habs), ?_⟩
  · intro place hpath dir
    rw [hpath]
    exact Place.atOrAbove_path_iff
  · rw [heffective]
    exact o.merges_over _ _
  · intro w' h
    rw [heffective w', heffective w, findRoot_congr h.marks, loadSettings_congr h]

/-- A settings file that is no text hides the one behind it, and its directory hides the one above. -/
theorem effectiveSettings_of_search_on_broken_file :
    let world : World :=
      { tree := Tree.ofTexts
          [(["a".toList], .directory), (["b".toList, "a".toList], .directory),
            (["c".toList, "b".toList, "a".toList], .directory),
            (["ruletest.yml".toList, "a".toList], .file "engine: far\n".toUTF8.toList false),
            (["ruletest.toml".toList, "b".toList, "a".toList], .file [0xff] false),
            (["ruletest.yaml".toList, "b".toList, "a".toList], .file "engine: near\n".toUTF8.toList false)]
        home := []
        scratch := [] }
    let start : Path := ⟨"/a/b/./c".toList⟩
    let given : GivenSettings :=
      ⟨some start, "tests".toList, none, none, none, some true, none, none, none, none⟩
    given.start = some start ∧ start.isAbsolute = true ∧
      world.EndsIn start ⟨"/a/b".toList⟩ ∧
      (∃ s, world.SettingsIn ⟨"/a/b".toList⟩ s ∧
        given.Merges ⟨"/a/b".toList⟩ s (world.effectiveSettings given)) ∧
      world.effectiveSettings given =
        ⟨⟨"/a/b".toList⟩, ⟨"tests".toList⟩, none, "semgrep".toList, false, true, false, .none, true, none⟩ := by
  intro world start given
  have hstart : given.start = some start := rfl
  have habs : start.isAbsolute = true := by decide
  have hroot : world.findRoot start = ⟨"/a/b".toList⟩ := by decide +kernel
  obtain ⟨-, -, -, hends, hmerges, -⟩ := effectiveSettings_of_search world hstart habs
  rw [hroot] at hends hmerges
  exact ⟨hstart, habs, hends, hmerges, by decide +kernel⟩

/-- A config root in a file is seen from the directory of the file. -/
example :
    let world : World :=
      { tree := Tree.ofTexts
          [(["r".toList], .directory), (["sub".toList, "r".toList], .directory),
            (["ruletest.toml".toList, "r".toList],
              .file "config = \"rules\"\njobs = 3\n".toUTF8.toList false)]
        home := []
        scratch := [] }
    let given : GivenSettings :=
      ⟨some ⟨"/r/sub".toList⟩, "tests".toList, none, some "e".toList, none, none, none, none, none, none⟩
    world.effectiveSettings given =
      ⟨⟨"/r".toList⟩, ⟨"tests".toList⟩, some ⟨"/r/rules".toList⟩, "e".toList, false, false, false, .none,
        true, some 3⟩ := by
  decide +kernel

end World

end RuleAudit
