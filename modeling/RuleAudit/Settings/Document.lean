import RuleAudit.Engine.Invocation
import RuleAudit.Files.World
import RuleAudit.Toml.Reader
import RuleAudit.Yaml.Value

/-!
# Settings files

A settings file gives some of the settings of a run. It may be written in TOML or in YAML. Keys that
are no settings are left out, and a value of the wrong kind makes the whole file unusable.
-/

namespace RuleAudit

/-- The settings of a file; what is not given is open. -/
structure FileSettings where
  /-- The config root, seen from the directory of the file. -/
  config : Option Text
  engine : Option Text
  strict : Option Bool
  json : Option Bool
  deep : Option Bool
  optimizations : Option Optimizations
  saveArchive : Option Bool
  jobs : Option Nat
  deriving DecidableEq, Repr

namespace FileSettings

def none : FileSettings :=
  ⟨Option.none, Option.none, Option.none, Option.none, Option.none, Option.none, Option.none,
    Option.none⟩

/-- The settings that a file can give. -/
inductive Key where
  | config
  | engine
  | strict
  | json
  | deep
  | optimizations
  | saveArchive
  | jobs
  deriving DecidableEq, Repr

def Key.name : Key → Text
  | .config => "config".toList
  | .engine => "engine".toList
  | .strict => "strict".toList
  | .json => "json".toList
  | .deep => "deep".toList
  | .optimizations => "optimizations".toList
  | .saveArchive => "save_archive".toList
  | .jobs => "jobs".toList

def Key.all : List Key :=
  [config, engine, strict, json, deep, optimizations, saveArchive, jobs]

def Key.ofName? (s : Text) : Option Key := all.find? fun k => k.name == s

/-- How the values of a format are read as settings; none for a value of the wrong kind. -/
structure Kinds (ν : Type) where
  text : ν → Option (Option Text)
  truth : ν → Option (Option Bool)
  level : ν → Option (Option Optimizations)
  /-- A number from 0 to `2 ^ 64 - 1`. -/
  count : ν → Option (Option Nat)

/-- One more setting. -/
def put {ν : Type} (kinds : Kinds ν) (s : FileSettings) (v : ν) : Key → Option FileSettings
  | .config => (kinds.text v).map fun x => { s with config := x }
  | .engine => (kinds.text v).map fun x => { s with engine := x }
  | .strict => (kinds.truth v).map fun x => { s with strict := x }
  | .json => (kinds.truth v).map fun x => { s with json := x }
  | .deep => (kinds.truth v).map fun x => { s with deep := x }
  | .optimizations => (kinds.level v).map fun x => { s with optimizations := x }
  | .saveArchive => (kinds.truth v).map fun x => { s with saveArchive := x }
  | .jobs => (kinds.count v).map fun x => { s with jobs := x }

/-- The settings of named values. A setting may be given only once. -/
def putAll {ν : Type} (kinds : Kinds ν) :
    FileSettings → List Key → List (Text × ν) → Option FileSettings
  | s, _, [] => some s
  | s, seen, (name, v) :: rest =>
    match Key.ofName? name with
    | Option.none => putAll kinds s seen rest
    | some key =>
      if seen.contains key then Option.none
      else
        match put kinds s v key with
        | Option.none => Option.none
        | some s => putAll kinds s (key :: seen) rest

/-! ## TOML -/

/-- Settings as TOML values. A level may also be the key of a table with one empty value. -/
def tomlKinds : Kinds Toml.Value where
  text
    | .string s => some (some s)
    | _ => Option.none
  truth
    | .bool b => some (some b)
    | _ => Option.none
  level
    | .string s => (Optimizations.ofWord? s).map some
    | .table _ [(s, .array [])] | .table _ [(s, .table _ [])] =>
      (Optimizations.ofWord? s).map some
    | _ => Option.none
  count
    | .integer i => if 0 ≤ i && i.toNat < Nat.pow 2 64 then some (some i.toNat) else Option.none
    | _ => Option.none

/-- The settings of a TOML text. -/
def ofToml? (s : Text) : Option FileSettings :=
  (Toml.document? s).bind (putAll tomlKinds none [])

/-! ## YAML -/

/-- Whether a node stands for a setting that is left open. A null tag has to agree with the text. -/
def isOpen (tag : Option Text) (s : Text) (style : Yaml.Style) : Option Bool :=
  if style ≠ .plain then some false
  else
    match tag with
    | some t =>
      if t = Yaml.Value.coreTag "null" then (if Yaml.isNull s then some true else Option.none)
      else some false
    | Option.none => some (s.isEmpty || Yaml.isNull s)

/-- A setting given by a scalar, unless the scalar leaves it open. -/
def ofScalar {α : Type} (read : Option Text → Text → Yaml.Style → Option α) :
    Yaml.Node → Option (Option α)
  | .scalar _ tag s style =>
    match isOpen tag s style with
    | some true => some Option.none
    | some false => (read tag s style).map some
    | Option.none => Option.none
  | _ => Option.none

/-- Whether a scalar has a meaning of its own: it is plain, or a literal block with the core tag of
that meaning. -/
def isMeaningful (core : String) (tag : Option Text) (style : Yaml.Style) : Bool :=
  style == .plain || (style == .literal && tag == some (Yaml.Value.coreTag core))

/-- The level that a node names: by its text, or by a tag on an empty scalar. -/
def levelOf (tag : Option Text) (s : Text) (style : Yaml.Style) : Option Optimizations :=
  match Yaml.Value.ownTag? tag with
  | some word =>
    if style = .plain && (s.isEmpty || Yaml.isNull s) then Optimizations.ofWord? word
    else Option.none
  | Option.none => Optimizations.ofWord? s

/-- Settings as YAML nodes. Any scalar is a text. -/
def yamlKinds : Kinds Yaml.Node where
  text := ofScalar fun _ s _ => some s
  truth := ofScalar fun tag s style =>
    if isMeaningful "bool" tag style then Yaml.truth? s else Option.none
  level := ofScalar levelOf
  count := ofScalar fun tag s style =>
    if isMeaningful "int" tag style then Yaml.unsigned? (Nat.pow 2 64) s else Option.none

/-- A node, or the node that an alias stands for. -/
def unalias (anchored : List (Nat × Yaml.Node)) : Yaml.Node → Option Yaml.Node
  | .alias id => (anchored.reverse.find? fun n => n.1 == id).map (·.2)
  | n => some n

/-- The named values of a mapping. Names are scalars, and aliases are resolved. -/
def namedNodes (anchored : List (Nat × Yaml.Node)) :
    List (Yaml.Node × Yaml.Node) → Option (List (Text × Yaml.Node))
  | [] => some []
  | (key, value) :: rest =>
    match unalias anchored key, unalias anchored value with
    | some (.scalar _ _ name _), some value =>
      (namedNodes anchored rest).map fun more => (name, value) :: more
    | _, _ => Option.none

/-- The settings of a YAML text. Nothing, or an empty plain scalar, gives none; any other scalar and
a sequence are no settings. -/
def ofYaml? (s : Text) : Option FileSettings :=
  match Yaml.Document.ofText? s with
  | Option.none => Option.none
  | some ⟨Option.none⟩ => some none
  | some ⟨some root⟩ =>
    match root with
    | .mapping _ _ pairs =>
      (namedNodes (Yaml.Value.anchored root) pairs).bind (putAll yamlKinds none [])
    | .scalar _ _ [] .plain => some none
    | _ => Option.none

end FileSettings

end RuleAudit
