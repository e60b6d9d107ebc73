import RuleAudit.Yaml.Node
import RuleAudit.Yaml.PlainValue

/-!
# Values of YAML documents

A document read as a value: aliases are resolved, plain scalars get their meaning, and a key may
stand in a mapping only once.
-/

namespace RuleAudit.Yaml

inductive Value where
  | null
  | bool (b : Bool)
  | integer (i : Int)
  | real (x : Real)
  | string (s : Text)
  | sequence (items : List Value)
  | mapping (pairs : List (Value × Value))
  | tagged (tag : Text) (value : Value)

namespace Value

/-! ## Equality -/

mutual

/-- Whether two values are equal. The order of the pairs of a mapping does not count. -/
def same : Value → Value → Bool
  | .null, .null => true
  | .bool a, .bool b => a == b
  | .integer a, .integer b => a == b
  | .real a, .real b => a.same b
  | .string a, .string b => a == b
  | .sequence as, .sequence bs => sameItems as bs
  | .mapping ps, .mapping qs => ps.length == qs.length && samePairs ps qs
  | .tagged t a, .tagged u b => t == u && same a b
  | _, _ => false

/-- Whether two lists have equal items. -/
def sameItems : List Value → List Value → Bool
  | [], [] => true
  | a :: as, b :: bs => same a b && sameItems as bs
  | _, _ => false

/-- Whether each pair has an equal one among others. -/
def samePairs : List (Value × Value) → List (Value × Value) → Bool
  | [], _ => true
  | (k, v) :: rest, qs => (qs.any fun q => same k q.1 && same v q.2) && samePairs rest qs

end

/-! ## Looking into values -/

/-- The value without its tags. -/
def untagged : Value → Value
  | .tagged _ v => untagged v
  | v => v

/-- The value of a key that is a text. -/
def get? (key : Text) (v : Value) : Option Value :=
  match v.untagged with
  | .mapping pairs => (pairs.find? fun p => p.1.same (.string key)).map (·.2)
  | _ => none

def items? (v : Value) : Option (List Value) :=
  match v.untagged with
  | .sequence items => some items
  | _ => none

/-! ## Scalars -/

/-- The integer of a text: of 64 bits. One of more than 64 but at most 128 bits is refused, and so
is told apart from no integer. -/
def integer? (s : Text) : Option (Option Int) :=
  match unsigned? (Nat.pow 2 64) s, negative? (Nat.pow 2 63) s with
  | some n, _ => some (some n)
  | none, some n => some (some (-(n : Int)))
  | none, none =>
    let isWide := (unsigned? (Nat.pow 2 128) s).isSome || (negative? (Nat.pow 2 127) s).isSome
    if isWide then some none else none

/-- The meaning of a plain scalar without a tag. -/
def ofPlain (s : Text) : Option Value :=
  if s.isEmpty || isNull s then some .null
  else
    match truth? s with
    | some b => some (.bool b)
    | none =>
      match integer? s with
      | some (some i) => some (.integer i)
      | some none => none
      | none =>
        if hasLeadingZero s then some (.string s)
        else
          match real? s with
          | some x => some (.real x)
          | none => some (.string s)

/-- The tags that a scalar's text has to agree with. -/
def coreTag (name : String) : Text := "tag:yaml.org,2002:".toList ++ name.toList

/-- The value of a scalar. A tag of one's own is not considered here; one of the core tags fixes the
meaning, and any other makes the scalar a string. -/
def ofScalar (tag : Option Text) (s : Text) (style : Style) : Option Value :=
  let untagged := if style = .plain then ofPlain s else some (.string s)
  match tag with
  | none => untagged
  | some t =>
    if t = coreTag "bool" then (truth? s).map .bool
    else if t = coreTag "int" then
      match integer? s with
      | some (some i) => some (.integer i)
      | _ => none
    else if t = coreTag "float" then (real? s).map .real
    else if t = coreTag "null" then (if isNull s then some .null else none)
    else some (.string s)

/-! ## Documents -/

/-- The tag of one's own that a node has, without its mark. -/
def ownTag? : Option Text → Option Text
  | some ('!' :: rest) => some rest
  | _ => none

/-- A value under the tag of its node, if it has one of its own. That tag may not be empty. -/
def wrap (tag : Option Text) (v : Value) : Option Value :=
  match ownTag? tag with
  | none => some v
  | some [] => none
  | some t => some (.tagged t v)

mutual

/-- The anchored nodes of a node with their numbers, in the order of the document. -/
def anchored : Node → List (Nat × Node)
  | .alias _ => []
  | .scalar anchor tag text style =>
    anchor.toList.map fun id => (id, .scalar anchor tag text style)
  | .sequence anchor tag items =>
    (anchor.toList.map fun id => (id, .sequence anchor tag items)) ++ anchoredItems items
  | .mapping anchor tag pairs =>
    (anchor.toList.map fun id => (id, .mapping anchor tag pairs)) ++ anchoredPairs pairs

def anchoredItems : List Node → List (Nat × Node)
  | [] => []
  | n :: rest => anchored n ++ anchoredItems rest

def anchoredPairs : List (Node × Node) → List (Nat × Node)
  | [] => []
  | (k, v) :: rest => anchored k ++ anchored v ++ anchoredPairs rest

end

mutual

/-- The number of events of a node: one for what has no parts, two for a collection. -/
def events : Node → Nat
  | .alias _ => 1
  | .scalar .. => 1
  | .sequence _ _ items => 2 + eventsOfItems items
  | .mapping _ _ pairs => 2 + eventsOfPairs pairs

def eventsOfItems : List Node → Nat
  | [] => 0
  | n :: rest => events n + eventsOfItems rest

def eventsOfPairs : List (Node × Node) → Nat
  | [] => 0
  | (k, v) :: rest => events k + events v + eventsOfPairs rest

end

/-- What aliases stand for, and how many of them may still be resolved. -/
structure Aliases where
  nodes : List (Nat × Node)
  /-- The number of aliases that may still be resolved. -/
  budget : Nat

def Aliases.resolve (a : Aliases) (id : Nat) : Option (Node × Aliases) :=
  match a.budget, a.nodes.reverse.find? fun n => n.1 == id with
  | budget + 1, some (_, n) => some (n, { a with budget := budget })
  | _, _ => none

/-- The values of some nodes, one after the other. -/
def mapNodes (f : Aliases → Node → Option (Value × Aliases)) :
    Aliases → List Node → Option (List Value × Aliases)
  | a, [] => some ([], a)
  | a, n :: rest => do
    let (v, a) ← f a n
    let (vs, a) ← mapNodes f a rest
    return (v :: vs, a)

/-- The values of some pairs of nodes. A key may not be repeated. -/
def mapPairs (f : Aliases → Node → Option (Value × Aliases)) :
    Aliases → List (Value × Value) → List (Node × Node) → Option (List (Value × Value) × Aliases)
  | a, done, [] => some (done.reverse, a)
  | a, done, (k, v) :: rest => do
    let (key, a) ← f a k
    if done.any fun p => p.1.same key then none
    let (value, a) ← f a v
    mapPairs f a ((key, value) :: done) rest

/-- The value of a node that is no alias, whose collections are nested at most `room` deep. -/
def ofNodeAt (f : Aliases → Node → Option (Value × Aliases)) (room : Nat) (a : Aliases) :
    Node → Option (Value × Aliases)
  | .alias _ => none
  | .scalar _ tag text style => do
    let v ← match ownTag? tag with
      | some _ => ofScalar none text style
      | none => ofScalar tag text style
    return (← wrap tag v, a)
  | .sequence _ tag items => do
    if room = 0 then none
    let (vs, a) ← mapNodes f a items
    return (← wrap tag (.sequence vs), a)
  | .mapping _ tag pairs => do
    if room = 0 then none
    let (ps, a) ← mapPairs f a [] pairs
    return (← wrap tag (.mapping ps), a)

/-- The value of a node whose collections are nested at most `room` deep, through aliases too. -/
def ofNodeWithin : Nat → Aliases → Node → Option (Value × Aliases)
  | 0, a, .alias id => (a.resolve id).bind fun (n, a) => ofNodeAt (fun _ _ => none) 0 a n
  | 0, a, n => ofNodeAt (fun _ _ => none) 0 a n
  | room + 1, a, .alias id =>
    (a.resolve id).bind fun (n, a) => ofNodeAt (ofNodeWithin room) (room + 1) a n
  | room + 1, a, n => ofNodeAt (ofNodeWithin room) (room + 1) a n

/-- How deep collections may be nested. -/
def maxDepth : Nat := 128

/-- The value of a document. Aliases may be resolved a hundred times for each event. -/
def ofNode? (n : Node) : Option Value :=
  (ofNodeWithin maxDepth ⟨anchored n, 100 * events n⟩ n).map (·.1)

/-- The value of a text; a text without a document is null. -/
def ofText? (s : Text) : Option Value :=
  match Document.ofText? s with
  | none => none
  | some ⟨none⟩ => some .null
  | some ⟨some root⟩ => ofNode? root

end Value

end RuleAudit.Yaml
