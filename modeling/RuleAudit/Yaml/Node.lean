import RuleAudit.Yaml.Tokens

/-!
# From tokens to nodes

A document is a tree of scalars, sequences and mappings. A node may have a tag and an anchor; an
alias stands for the node of an anchor.
-/

namespace RuleAudit.Yaml

/-- A node of a document. Anchors are numbered. -/
inductive Node where
  | alias (anchor : Nat)
  | scalar (anchor : Option Nat) (tag : Option Text) (text : Text) (style : Style)
  | sequence (anchor : Option Nat) (tag : Option Text) (items : List Node)
  | mapping (anchor : Option Nat) (tag : Option Text) (pairs : List (Node × Node))

/-- What is read of a document: the tokens to come, the numbers of the anchors, and what the handles
of tags stand for. -/
structure Reading where
  tokens : List Token
  /-- The number of each anchor. -/
  anchors : List (Text × Nat)
  handles : List (Text × Text)

namespace Reading

/-- The reading after its first token. -/
def drop (r : Reading) : Reading := { r with tokens := r.tokens.tail }

/-- Whether the first token is one of some kinds; past the last token there is none. -/
def nextIs (r : Reading) (p : Token → Bool) : Bool := r.tokens.head?.any p

/-- The number of a new anchor: the number of different names before it. A name given again gets a
new number. -/
def bind (r : Reading) : Option Text → Option Nat × Reading
  | none => (none, r)
  | some name =>
    let id := r.anchors.length
    let known := r.anchors.any fun a => a.1 == name
    let anchors :=
      if known then r.anchors.map fun a => if a.1 = name then (name, id) else a
      else r.anchors ++ [(name, id)]
    (some id, { r with anchors := anchors })

/-- A tag written out; its handle has to be known. -/
def expandTag (r : Reading) (handle suffix : Text) : Option Text :=
  if handle.isEmpty then some suffix
  else (r.handles.find? fun h => h.1 == handle).map fun h => h.2 ++ suffix

/-- The anchor and the tag before a node, in either order. -/
def properties (r : Reading) : Option (Option Text × Option Text × Reading) :=
  match r.tokens with
  | .anchor name :: .tag handle suffix :: rest | .tag handle suffix :: .anchor name :: rest =>
    (r.expandTag handle suffix).map fun tag => (some name, some tag, { r with tokens := rest })
  | .anchor name :: rest => some (some name, none, { r with tokens := rest })
  | .tag handle suffix :: rest =>
    (r.expandTag handle suffix).map fun tag => (none, some tag, { r with tokens := rest })
  | _ => some (none, none, r)

end Reading

/-- The node where nothing is written. -/
def emptyNode : Node := .scalar none none [] .plain

/-- Tokens after which an item of a sequence without brackets is empty. -/
def endsEntry : Token → Bool
  | .blockEntry | .blockEnd => true
  | _ => false

/-- Tokens after which a part of a pair without braces is empty. -/
def endsPart : Token → Bool
  | .key | .value | .blockEnd => true
  | _ => false

/-- Tokens after which a part of a pair in brackets is empty. -/
def endsFlowPart : Token → Bool
  | .value | .flowEntry | .flowSequenceEnd => true
  | _ => false

/-- Tokens after which a part of a pair in braces is empty. -/
def endsFlowPair : Token → Bool
  | .value | .flowEntry | .flowMappingEnd => true
  | _ => false

/-! ## Nodes

Every call consumes a token or is followed by one that does, so a fuel of four times the tokens
suffices. -/

mutual

/-- A node. `block` allows collections without brackets, and `indentless` a sequence that is no
deeper than the mapping it is in. -/
def readNode : Nat → Bool → Bool → Reading → Option (Node × Reading)
  | 0, _, _, _ => none
  | fuel + 1, block, indentless, r =>
    match r.tokens with
    | .alias name :: _ =>
      (r.anchors.find? fun a => a.1 == name).map fun a => (.alias a.2, r.drop)
    | _ =>
      match r.properties with
      | none => none
      | some (anchor, tag, r) =>
        match r.tokens with
        | .scalar text style :: _ =>
          let (id, r) := r.bind anchor
          some (.scalar id (if tag = some ['!'] then none else tag) text style, r.drop)
        | .flowSequenceStart :: _ =>
          let (id, r) := r.bind anchor
          (readFlowItems fuel true [] r.drop).map fun (items, r) => (.sequence id tag items, r)
        | .flowMappingStart :: _ =>
          let (id, r) := r.bind anchor
          (readFlowPairs fuel true [] r.drop).map fun (pairs, r) => (.mapping id tag pairs, r)
        | first :: _ =>
          if indentless && first = .blockEntry then
            let (id, r) := r.bind anchor
            (readEntries fuel [] r).map fun (items, r) => (.sequence id tag items, r)
          else if block && first = .blockSequenceStart then
            let (id, r) := r.bind anchor
            (readItems fuel [] r.drop).map fun (items, r) => (.sequence id tag items, r)
          else if block && first = .blockMappingStart then
            let (id, r) := r.bind anchor
            (readPairs fuel [] r.drop).map fun (pairs, r) => (.mapping id tag pairs, r)
          else if anchor.isSome || tag.isSome then
            let (id, r) := r.bind anchor
            some (.scalar id tag [] .plain, r)
          else none
        | [] =>
          if anchor.isSome || tag.isSome then
            let (id, r) := r.bind anchor
            some (.scalar id tag [] .plain, r)
          else none

/-- The items of a sequence that is opened by indentation. -/
def readItems : Nat → List Node → Reading → Option (List Node × Reading)
  | 0, _, _ => none
  | fuel + 1, done, r =>
    match r.tokens with
    | .blockEntry :: _ =>
      let r := r.drop
      if r.nextIs endsEntry then readItems fuel (emptyNode :: done) r
      else
        match readNode fuel true false r with
        | none => none
        | some (item, r) => readItems fuel (item :: done) r
    | .blockEnd :: _ => some (done.reverse, r.drop)
    | _ => none

/-- The items of a sequence that is no deeper than the mapping it is in. -/
def readEntries : Nat → List Node → Reading → Option (List Node × Reading)
  | 0, _, _ => none
  | fuel + 1, done, r =>
    match r.tokens with
    | .blockEntry :: _ =>
      let r := r.drop
      if r.nextIs fun t => endsEntry t || endsPart t then readEntries fuel (emptyNode :: done) r
      else
        match readNode fuel true false r with
        | none => none
        | some (item, r) => readEntries fuel (item :: done) r
    | _ => some (done.reverse, r)

/-- The pairs of a mapping that is opened by indentation. -/
def readPairs : Nat → List (Node × Node) → Reading → Option (List (Node × Node) × Reading)
  | 0, _, _ => none
  | fuel + 1, done, r =>
    match r.tokens with
    | .key :: _ =>
      match readPart fuel r.drop with
      | none => none
      | some (key, r) =>
        match r.tokens with
        | .value :: _ =>
          match readPart fuel r.drop with
          | none => none
          | some (value, r) => readPairs fuel ((key, value) :: done) r
        | _ => readPairs fuel ((key, emptyNode) :: done) r
    | .blockEnd :: _ => some (done.reverse, r.drop)
    | _ => none

/-- A key or a value of a mapping that is opened by indentation. -/
def readPart : Nat → Reading → Option (Node × Reading)
  | 0, _ => none
  | fuel + 1, r => if r.nextIs endsPart then some (emptyNode, r) else readNode fuel true true r

/-- The items of a sequence in brackets. A pair among them is a mapping of its own. -/
def readFlowItems : Nat → Bool → List Node → Reading → Option (List Node × Reading)
  | 0, _, _, _ => none
  | fuel + 1, first, done, r =>
    if r.nextIs (· = .flowSequenceEnd) then some (done.reverse, r.drop)
    else
      let next := if first then some r else if r.nextIs (· = .flowEntry) then some r.drop else none
      match next with
      | none => none
      | some r =>
        match r.tokens with
        | .flowSequenceEnd :: _ => some (done.reverse, r.drop)
        | .key :: _ =>
          match readFlowPair fuel r.drop with
          | none => none
          | some (key, value, r) =>
            readFlowItems fuel false (.mapping none none [(key, value)] :: done) r
        | _ =>
          match readNode fuel false false r with
          | none => none
          | some (item, r) => readFlowItems fuel false (item :: done) r

/-- The pair among the items of a sequence in brackets. Where its key is empty, the token that shows
it is skipped. -/
def readFlowPair : Nat → Reading → Option (Node × Node × Reading)
  | 0, _ => none
  | fuel + 1, r =>
    let key :=
      if r.nextIs endsFlowPart || r.tokens.isEmpty then some (emptyNode, r.drop)
      else readNode fuel false false r
    match key with
    | none => none
    | some (key, r) =>
      match r.tokens with
      | .value :: _ =>
        let r := r.drop
        if r.nextIs fun t => t = .flowEntry || t = .flowSequenceEnd then some (key, emptyNode, r)
        else (readNode fuel false false r).map fun (value, r) => (key, value, r)
      | _ => some (key, emptyNode, r)

/-- The pairs of a mapping in braces. A node alone is a key without a value. -/
def readFlowPairs :
    Nat → Bool → List (Node × Node) → Reading → Option (List (Node × Node) × Reading)
  | 0, _, _, _ => none
  | fuel + 1, first, done, r =>
    if r.nextIs (· = .flowMappingEnd) then some (done.reverse, r.drop)
    else
      let next := if first then some r else if r.nextIs (· = .flowEntry) then some r.drop else none
      match next with
      | none => none
      | some r =>
        match r.tokens with
        | .flowMappingEnd :: _ => some (done.reverse, r.drop)
        | .key :: _ =>
          let r := r.drop
          let key :=
            if r.nextIs endsFlowPair then some (emptyNode, r) else readNode fuel false false r
          match key with
          | none => none
          | some (key, r) =>
            match r.tokens with
            | .value :: _ =>
              let r := r.drop
              if r.nextIs fun t => t = .flowEntry || t = .flowMappingEnd then
                readFlowPairs fuel false ((key, emptyNode) :: done) r
              else
                match readNode fuel false false r with
                | none => none
                | some (value, r) => readFlowPairs fuel false ((key, value) :: done) r
            | _ => readFlowPairs fuel false ((key, emptyNode) :: done) r
        | _ =>
          match readNode fuel false false r with
          | none => none
          | some (key, r) => readFlowPairs fuel false ((key, emptyNode) :: done) r

end

/-! ## Documents -/

/-- The tags that handles stand for where no directive says otherwise. -/
def defaultHandles : List (Text × Text) :=
  [(['!'], ['!']), (['!', '!'], "tag:yaml.org,2002:".toList)]

/-- The directives before a document: one version at most, of a known format, and each handle at
most once. -/
def readDirectives : List Token → Bool → List (Text × Text) →
    Option (List (Text × Text) × List Token)
  | .versionDirective major minor :: rest, versioned, handles =>
    if versioned || major != 1 || (minor != 1 && minor != 2) then none
    else readDirectives rest true handles
  | .tagDirective handle expansion :: rest, versioned, handles =>
    if handles.any fun h => h.1 == handle then none
    else readDirectives rest versioned (handles ++ [(handle, expansion)])
  | rest, _, handles => some (handles, rest)

/-- Whether a token starts a document that says so. -/
def startsDocument : Token → Bool
  | .versionDirective .. | .tagDirective .. | .documentStart => true
  | _ => false

/-- Whether nothing of a document is left before a token. -/
def endsDocument (t : Token) : Bool := startsDocument t || t = .documentEnd

/-- The root node of a stream; none where nothing is written. -/
structure Document where
  root : Option Node

namespace Document

/-- The document of a reading and the tokens after it. -/
def readRoot (r : Reading) : Option (Node × Reading) :=
  readNode (4 * r.tokens.length + 8) true false r

/-- The document that some tokens start with, and the tokens after it. -/
def readFirst (tokens : List Token) : Option (Document × List Token) :=
  match tokens with
  | [] => some (⟨none⟩, [])
  | first :: _ =>
    if startsDocument first then
      match readDirectives tokens false [] with
      | some (handles, .documentStart :: rest) =>
        let r : Reading := ⟨rest, [], handles ++ defaultHandles⟩
        if rest.isEmpty || r.nextIs endsDocument then some (⟨some emptyNode⟩, rest)
        else (readRoot r).map fun (root, r) => (⟨some root⟩, r.tokens)
      | _ => none
    else
      (readRoot ⟨tokens, [], defaultHandles⟩).map fun (root, r) => (⟨some root⟩, r.tokens)

/-- The only document of some tokens. -/
def ofTokens? (tokens : List Token) : Option Document :=
  match readFirst tokens with
  | some (d, rest) => if rest.all (· = .documentEnd) then some d else none
  | none => none

/-- The only document of a text. -/
def ofText? (s : Text) : Option Document := (tokens? s).bind ofTokens?

end Document

end RuleAudit.Yaml
