import DefinitionFiles.Yaml.Node

/-!
# Nodes from tokens

A document is read from tokens by descent through its collections. In many places a node may be
missing: it is then an empty scalar.
-/

namespace DefinitionFiles.Yaml

/-- What is known in the middle of a document. -/
structure Draft where
  /-- The tokens that follow. -/
  tokens : List Token
  /-- What the handles of tags stand for. -/
  handles : List (Bytes × Bytes) := []
  /-- The names so far with the numbers of their nodes, last one first. -/
  anchors : List (Bytes × Nat) := []
  /-- The nodes with a name that are complete. -/
  anchored : List (Nat × Node) := []

/-- Reads something from tokens. -/
abbrev Reader := StateT Draft Option

namespace Reader

/-- The next token. -/
def peek : Reader Token := do
  match (← get).tokens with
  | [] => failure
  | token :: _ => return token

/-- Passes over a token. -/
def skip : Reader Unit :=
  modify fun d => { d with tokens := d.tokens.drop 1 }

/-- Whether a token comes next; it is then passed over. -/
def accept (token : Token) : Reader Bool := do
  if (← peek) = token then
    skip
    return true
  else return false

/-- Passes over a token that must come next. -/
def expect (token : Token) : Reader Unit := do
  if !(← accept token) then failure

/-! ## Properties -/

/-- Reads an anchor, if there is one. -/
def anchor? : Reader (Option Bytes) := do
  match ← peek with
  | .anchor name =>
      skip
      return some name
  | _ => return none

/-- Reads a tag, if there is one. Its handle must be known. -/
def tag? : Reader (Option Bytes) := do
  match ← peek with
  | .tag [] rest =>
      skip
      return some rest
  | .tag handle rest =>
      skip
      match (← get).handles.lookup handle with
      | some start => return some (start ++ rest)
      | none => failure
  | _ => return none

/-- Reads the anchor and the tag of a node, in either order. -/
def properties : Reader (Option Bytes × Option Bytes) := do
  let first? ← anchor?
  let tag? ← tag?
  if first?.isSome || tag?.isNone then return (first?, tag?)
  return (← anchor?, tag?)

/-- The number of a new node, which has the given name from now on. -/
def enroll (name : Bytes) : Reader Nat := do
  let number := (← get).anchors.length
  modify fun d => { d with anchors := (name, number) :: d.anchors }
  return number

/-- Keeps a complete node under its number. -/
def keep (number : Nat) (node : Node) : Reader Unit :=
  modify fun d => { d with anchored := (number, node) :: d.anchored }

/-! ## Collections -/

/-- Where a node stands. -/
inductive Place where
  | block
  /-- Where the items of a block sequence need no indentation: as key or value of a block
  mapping. -/
  | member
  | flow
  deriving DecidableEq, Repr

/-- Reads a node unless one of the given tokens shows that it is missing. -/
def orEmpty (ends : List Token) (node : Reader Node) : Reader Node := do
  if ends.contains (← peek) then return .empty else node

/-- Reads the items of a block sequence. -/
def blockItems (node : Place → Reader Node) : (fuel : Nat) → (done : List Node) → Reader Node
  | 0, _ => failure
  | fuel + 1, done => do
      if ← accept .entry then
        let item ← orEmpty [.entry, .blockEnd] (node .block)
        blockItems node fuel (item :: done)
      else
        expect .blockEnd
        return .sequence done.reverse

/-- Reads the items of a block sequence without indentation of its own. -/
def memberItems (node : Place → Reader Node) : (fuel : Nat) → (done : List Node) → Reader Node
  | 0, _ => failure
  | fuel + 1, done => do
      if ← accept .entry then
        let item ← orEmpty [.entry, .key, .value, .blockEnd] (node .block)
        memberItems node fuel (item :: done)
      else return .sequence done.reverse

/-- Reads a value, if there is one. -/
def valueOrEmpty (ends : List Token) (node : Reader Node) : Reader Node := do
  if ← accept .value then orEmpty ends node else return .empty

/-- Reads the entries of a block mapping. -/
def blockEntries (node : Place → Reader Node) :
    (fuel : Nat) → (done : List (Node × Node)) → Reader Node
  | 0, _ => failure
  | fuel + 1, done => do
      if ← accept .key then
        let ends := [.key, .value, .blockEnd]
        let key ← orEmpty ends (node .member)
        let value ← valueOrEmpty ends (node .member)
        blockEntries node fuel ((key, value) :: done)
      else
        expect .blockEnd
        return .mapping done.reverse

/-- Whether a flow collection ends here, where its first item or entry may stand or a comma must
come before the next one. The comma and the mark that closes the collection are passed over. -/
def flowEnds (first : Bool) (close : Token) : Reader Bool := do
  if ← accept close then return true
  if first then return false
  expect .comma
  accept close

/-- Reads a mapping of one entry inside a flow sequence, after the mark of its key. Where the key is
missing, the token that shows it is passed over. -/
def flowPair (node : Reader Node) : Reader Node := do
  let key ←
    if [.value, .comma, .flowSequenceEnd].contains (← peek) then
      skip
      pure .empty
    else node
  let value ← valueOrEmpty [.comma, .flowSequenceEnd] node
  return .mapping [(key, value)]

/-- Reads the items of a flow sequence. -/
def flowItems (node : Place → Reader Node) : (fuel : Nat) → (done : List Node) → Reader Node
  | 0, _ => failure
  | fuel + 1, done => do
      if ← flowEnds done.isEmpty .flowSequenceEnd then return .sequence done.reverse
      let item ← if ← accept .key then flowPair (node .flow) else node .flow
      flowItems node fuel (item :: done)

/-- Reads an entry of a flow mapping. What has no mark of a key has no value either. -/
def flowEntry (node : Reader Node) : Reader (Node × Node) := do
  if ← accept .key then
    let key ← orEmpty [.value, .comma, .flowMappingEnd] node
    let value ← valueOrEmpty [.comma, .flowMappingEnd] node
    return (key, value)
  else return (← node, .empty)

/-- Reads the entries of a flow mapping. -/
def flowEntries (node : Place → Reader Node) :
    (fuel : Nat) → (done : List (Node × Node)) → Reader Node
  | 0, _ => failure
  | fuel + 1, done => do
      if ← flowEnds done.isEmpty .flowMappingEnd then return .mapping done.reverse
      let entry ← flowEntry (node .flow)
      flowEntries node fuel (entry :: done)

/-! ## Nodes and documents -/

/-- Reads what a node holds, given its tag and whether it has any property. Only a node with a
property may be missing. -/
def content (node : Place → Reader Node) (fuel : Nat) (place : Place) (tag? : Option Bytes)
    (hasProperty : Bool) : Reader Node := do
  let tag? := (tag?.filter (· != utf8 "!")).map shortTag
  let start ← peek
  match start, place with
  | .entry, .member => memberItems node fuel []
  | .scalar text plain, _ => do
      skip
      return .scalar { tag?, plain, text }
  | .flowSequence, _ => do
      skip
      flowItems node fuel []
  | .flowMapping, _ => do
      skip
      flowEntries node fuel []
  | .blockSequence, .block | .blockSequence, .member => do
      skip
      blockItems node fuel []
  | .blockMapping, .block | .blockMapping, .member => do
      skip
      blockEntries node fuel []
  | _, _ => if hasProperty then return .scalar { tag? } else failure

/-- Reads a node. An alias must have a name that was given before. -/
def node : (fuel : Nat) → Place → Reader Node
  | 0, _ => failure
  | fuel + 1, place => do
      match ← peek with
      | .reference name =>
          skip
          match (← get).anchors.lookup name with
          | some number => return .reference name number
          | none => failure
      | _ =>
          let (name?, tag?) ← properties
          let hasProperty := name?.isSome || tag?.isSome
          match name? with
          | some name =>
              let number ← enroll name
              let n ← content (node fuel) fuel place tag? hasProperty
              keep number n
              return n
          | none => content (node fuel) fuel place tag? hasProperty

/-- Reads the directives before a document. The version can be given once and must be 1.1, and no
handle can be given twice. -/
def directives : (fuel : Nat) → (versioned : Bool) → Reader Unit
  | 0, _ => failure
  | fuel + 1, versioned => do
      match ← peek with
      | .version major minor =>
          if versioned || major != 1 || minor != 1 then failure
          skip
          directives fuel true
      | .handle name start =>
          if ((← get).handles.lookup name).isSome then failure
          modify fun d => { d with handles := (name, start) :: d.handles }
          skip
          directives fuel versioned
      | _ => modify fun d =>
          { d with handles := d.handles ++ [(utf8 "!", utf8 "!"), (utf8 "!!", standardTags)] }

/-- Reads the root of a document, and nothing from a stream that ends here. One more token must
follow. -/
def root? (fuel : Nat) : Reader (Option Node) := do
  let start ← peek
  if start = .streamEnd then return none
  directives fuel false
  let n ←
    if start = .documentStart || start.isDirective then do
      expect .documentStart
      let next ← peek
      if next.isDirective || [.documentStart, .documentEnd, .streamEnd].contains next then
        pure .empty
      else node fuel .block
    else node fuel .block
  let _ ← peek
  return some n

end Reader

/-- The first document of a stream of tokens, which may have none. -/
def document? (tokens : List Token) : Option (Option Document) := do
  let fuel := tokens.length + 1
  let (root?, d) ← (Reader.root? fuel).run { tokens := tokens }
  return root?.map fun root => { root := root, anchored := d.anchored, depth := fuel }

end DefinitionFiles.Yaml
