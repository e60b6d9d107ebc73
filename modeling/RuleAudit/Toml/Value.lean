import RuleAudit.Text.Basic

/-!
# TOML values

How a table came to be decides whether it may be extended: a table under a header may be opened
once, one made by dotted keys only by more of them, and one in braces never.
-/

namespace RuleAudit.Toml

/-- How a table came to be. -/
inductive Origin where
  | header
  | implied
  | dotted
  | inline
  deriving DecidableEq, Repr

/-- A value. Of numbers that are no integers and of dates only their validity matters. -/
inductive Value where
  | string (s : Text)
  | integer (i : Int)
  | real
  | bool (b : Bool)
  | moment
  | array (items : List Value)
  /-- Tables under repeated headers, the last one last. -/
  | tables (items : List (List (Text × Value)))
  | table (origin : Origin) (entries : List (Text × Value))

/-- The entries of a table in their order. -/
abbrev Entries := List (Text × Value)

/-- The value of a key. -/
def find? (key : Text) (es : Entries) : Option Value := (es.find? fun e => e.1 == key).map (·.2)

/-- The entries with the value of a key replaced. -/
def replace (key : Text) (v : Value) (es : Entries) : Entries :=
  es.map fun e => if e.1 = key then (key, v) else e

/-- The last of some tables changed. -/
def changeLast (f : Entries → Option Entries) (items : List Entries) : Option (List Entries) :=
  match items.getLast? with
  | none => none
  | some last => (f last).map fun last => items.dropLast ++ [last]

/-- A value put at a dotted key. Tables on the way are made as needed; the table that holds the
value has to be one made by dotted keys. -/
def putDotted : List Text → Value → Entries → Option Entries
  | [], _, _ => none
  | [key], v, es => if (find? key es).isSome then none else some (es ++ [(key, v)])
  | key :: next :: path, v, es =>
    match find? key es with
    | none => (putDotted (next :: path) v []).map fun sub => es ++ [(key, .table .dotted sub)]
    | some (.table .dotted sub) =>
      (putDotted (next :: path) v sub).map fun sub => replace key (.table .dotted sub) es
    | some (.table .implied sub) =>
      if path.isEmpty then none
      else (putDotted (next :: path) v sub).map fun sub => replace key (.table .implied sub) es
    | some (.tables items) =>
      if path.isEmpty then none
      else
        (changeLast (putDotted (next :: path) v) items).map fun items =>
          replace key (.tables items) es
    | some _ => none

/-- The entries of the table at the end of a way changed. Tables on the way are made as needed; of
tables under repeated headers the last one is meant. -/
def changeAt (f : Entries → Option Entries) : List Text → Entries → Option Entries
  | [], es => f es
  | key :: path, es =>
    match find? key es with
    | none => (changeAt f path []).map fun sub => es ++ [(key, .table .implied sub)]
    | some (.table .inline _) => none
    | some (.table origin sub) =>
      (changeAt f path sub).map fun sub => replace key (.table origin sub) es
    | some (.tables items) =>
      (changeLast (changeAt f path) items).map fun items => replace key (.tables items) es
    | some _ => none

/-- A table opened by its header. -/
def openTable (key : Text) (es : Entries) : Option Entries :=
  match find? key es with
  | none => some (es ++ [(key, .table .header [])])
  | some (.table .implied sub) => some (replace key (.table .header sub) es)
  | some _ => none

/-- One more table opened by a repeated header. -/
def openItem (key : Text) (es : Entries) : Option Entries :=
  match find? key es with
  | none => some (es ++ [(key, .tables [[]])])
  | some (.tables items) => some (replace key (.tables (items ++ [[]])) es)
  | some _ => none

end RuleAudit.Toml
