import Monkey.Yaml.Token.Stream

/-!
# Nodes of a document

A document is a tree of scalars, sequences and mappings. A node may have an anchor, and a reference
stands for the last node before it with an anchor of that name. A node that is left out is an empty
plain scalar. `Node.first?` reads the first document of a source and, of what follows it, only the
tokens that the stream reads in advance.
-/

namespace Monkey.Yaml

/-- A node. The tag of a scalar is empty if there is none. A reference inside of the node that
it stands for has no target. -/
inductive Node where
  | scalar (tag : Bytes) (plain : Bool) (text : List Char)
  | sequence (items : List Node)
  | mapping (entries : List (Node × Node))
  | reference (name : List Char) (target : Option Node)

namespace Node

def empty : Node := scalar [] true []

/-- An anchor, with the number of its token, and its node when that has been read. -/
structure Anchor where
  name : List Char
  number : Nat
  node : Option Node

/-- Where the reading of a document stands: the tokens to come, what the handles of tags stand for,
and the anchors, newest first. -/
structure Reading where
  stream : Stream
  handles : List (List Char × Bytes)
  anchors : List Anchor

abbrev Reader := StateT Reading Option

def peek : Reader Token := fun r => do
  let (t, stream) ← r.stream.peek?
  pure (t, { r with stream := stream })

def next : Reader Unit := modify fun r => { r with stream := r.stream.next }

/-- Takes the next token, which must be the given one. -/
def expect (t : Token) : Reader Unit := do
  guard ((← peek) = t)
  next

/-- The node with the given anchor. -/
def resolve (name : List Char) : Reader Node := do
  match (← get).anchors.find? (·.name = name) with
  | some anchor => pure (reference name anchor.node)
  | none => failure

/-- The whole text of a tag. -/
def wholeTag (handle : List Char) (rest : Bytes) : Reader Bytes := do
  if handle.isEmpty then pure rest
  else match (← get).handles.find? (·.1 = handle) with
    | some (_, meaning) => pure (meaning ++ rest)
    | none => failure

/-- The anchor here, if there is one. Its node is not known yet. -/
def anchor : Reader (Option Nat) := do
  match ← peek with
  | .anchor name =>
    let number := (← get).stream.taken
    next
    modify fun r => { r with anchors := ⟨name, number, none⟩ :: r.anchors }
    pure (some number)
  | _ => pure none

/-- The tag here, which is empty if there is none. -/
def tag : Reader Bytes := do
  match ← peek with
  | .tag handle rest =>
    next
    wholeTag handle rest
  | _ => pure []

/-- An anchor and a tag in any order, both optional. -/
def properties : Reader (Option Nat × Bytes) := do
  match ← anchor with
  | some number => pure (some number, ← tag)
  | none =>
    let tag ← tag
    if tag.isEmpty then pure (none, tag) else pure (← anchor, tag)

/-- Gives the anchor with the given number its node. -/
def complete (number : Option Nat) (node : Node) : Reader Unit :=
  let fill (a : Anchor) : Anchor :=
    if number = some a.number then { a with node := some node } else a
  modify fun r => { r with anchors := r.anchors.map fill }

/-- Goes to the next part between brackets, and tells whether the closing one has been reached. -/
def flowBreak (first : Bool) (close : Token) : Reader Bool := do
  let t ← peek
  if first || t = close then pure (t = close)
  else
    expect .comma
    pure ((← peek) = close)

mutual

/-- A node. It may be a block only where `block` says so, and a sequence that is not further in than
the key before it only where `flush` does. -/
def node : Nat → Bool → Bool → Reader Node
  | 0, _, _ => failure
  | fuel + 1, block, flush => do
    match ← peek with
    | .reference name =>
      next
      resolve name
    | _ =>
      let (number, tag) ← properties
      let content : Option (Reader Node) := match ← peek with
        | .dash => if flush then some (flushSequence fuel []) else none
        | .scalar plain text => some do
            next
            pure (scalar tag plain text)
        | .bracketOpen => some do
            next
            flowSequence fuel true []
        | .braceOpen => some do
            next
            flowMapping fuel true []
        | .sequenceStart => if block then some (next *> blockSequence fuel []) else none
        | .mappingStart => if block then some (next *> blockMapping fuel []) else none
        | _ => none
      match content with
      | some content =>
        let node ← content
        complete number node
        pure node
      | none =>
        guard (number.isSome || !tag.isEmpty)
        complete number (scalar tag true [])
        pure (scalar tag true [])

/-- The items of a block sequence behind those read already, which are held newest first. -/
def blockSequence : Nat → List Node → Reader Node
  | 0, _ => failure
  | fuel + 1, done => do
    match ← peek with
    | .dash =>
      next
      let item ← match ← peek with
        | .dash | .blockEnd => pure empty
        | _ => node fuel true false
      blockSequence fuel (item :: done)
    | .blockEnd =>
      next
      pure (sequence done.reverse)
    | _ => failure

/-- The items of a sequence that is not further in than the key before it. -/
def flushSequence : Nat → List Node → Reader Node
  | 0, _ => failure
  | fuel + 1, done => do
    match ← peek with
    | .dash =>
      next
      let item ← match ← peek with
        | .dash | .key | .value | .blockEnd => pure empty
        | _ => node fuel true false
      flushSequence fuel (item :: done)
    | _ => pure (sequence done.reverse)

/-- The entries of a block mapping. -/
def blockMapping : Nat → List (Node × Node) → Reader Node
  | 0, _ => failure
  | fuel + 1, done => do
    match ← peek with
    | .key =>
      next
      let key ← blockPart fuel
      let value ← match ← peek with
        | .value => next *> blockPart fuel
        | _ => pure empty
      blockMapping fuel ((key, value) :: done)
    | .blockEnd =>
      next
      pure (mapping done.reverse)
    | _ => failure

/-- A key or a value of a block mapping. -/
def blockPart : Nat → Reader Node
  | 0 => failure
  | fuel + 1 => do
    match ← peek with
    | .key | .value | .blockEnd => pure empty
    | _ => node fuel true true

/-- The items up to the closing bracket. Before each but the first there is a comma, and an item
with a colon in it is a mapping with one entry. -/
def flowSequence : Nat → Bool → List Node → Reader Node
  | 0, _, _ => failure
  | fuel + 1, first, done => do
    let closed ← flowBreak first .bracketClose
    if closed then
      next
      pure (sequence done.reverse)
    else if (← peek) = .key then
      next
      let key ← match ← peek with
        | .value | .comma | .bracketClose => next *> pure empty
        | _ => node fuel false false
      let value ← flowValue fuel .bracketClose
      flowSequence fuel false (mapping [(key, value)] :: done)
    else
      let item ← node fuel false false
      flowSequence fuel false (item :: done)

/-- The entries up to the closing brace. A key may be without a value. -/
def flowMapping : Nat → Bool → List (Node × Node) → Reader Node
  | 0, _, _ => failure
  | fuel + 1, first, done => do
    let closed ← flowBreak first .braceClose
    if closed then
      next
      pure (mapping done.reverse)
    else if (← peek) = .key then
      next
      let key ← match ← peek with
        | .value | .comma | .braceClose => pure empty
        | _ => node fuel false false
      let value ← flowValue fuel .braceClose
      flowMapping fuel false ((key, value) :: done)
    else
      let key ← node fuel false false
      flowMapping fuel false ((key, empty) :: done)

/-- The value between brackets, which are closed by the given token, if there is a colon here. -/
def flowValue : Nat → Token → Reader Node
  | 0, _ => failure
  | fuel + 1, close => do
    if (← peek) = .value then
      next
      let t ← peek
      if t = .comma || t = close then pure empty else node fuel false false
    else pure empty

end

/-- Takes up the directives before a document. The version must be 1.1, and nothing may be said
twice. -/
def directives : Nat → Bool → Reader Unit
  | 0, _ => failure
  | fuel + 1, versioned => do
    match ← peek with
    | .directive (.version major minor) =>
      guard (!versioned && major = 1 && minor = 1)
      next
      directives fuel true
    | .directive (.handle name meaning) =>
      guard (!(← get).handles.any (·.1 = name))
      next
      modify fun r => { r with handles := (name, meaning) :: r.handles }
      directives fuel versioned
    | _ => pure ()

/-- The handles that every document has, unless it gives them another meaning. -/
def commonHandles : List (List Char × Bytes) :=
  [(['!'], utf8 "!"), (['!', '!'], utf8 "tag:yaml.org,2002:")]

/-- The node of the first document, or nothing if the source has no document. -/
def document (fuel : Nat) : Reader (Option Node) := do
  match ← peek with
  | .sourceEnd => pure none
  | .directive _ | .documentStart =>
    directives fuel false
    expect .documentStart
    modify fun r => { r with handles := r.handles ++ commonHandles }
    let node ← match ← peek with
      | .directive _ | .documentStart | .documentEnd | .sourceEnd => pure empty
      | _ => node fuel true false
    discard peek
    pure (some node)
  | _ =>
    modify fun r => { r with handles := commonHandles }
    let node ← node fuel true false
    discard peek
    pure (some node)

/-- Reads the first document of a source. The inner option is empty if there is none, and the outer
one if it is malformed. -/
def first? (source : Source) : Option (Option Node) :=
  (document (16 * (source.chars.length + 4))).run' ⟨.ofSource source, [], []⟩

end Node

end Monkey.Yaml
