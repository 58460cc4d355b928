import PromptTemplate.Yaml.Node
import PromptTemplate.Yaml.Token

/-!
# From YAML tokens to nodes

One document: its directives, one node, and its end. Where a node is missing an empty scalar
stands in for it. Nodes are bounded by the number of tokens, as each one but an empty one takes a
token.
-/

namespace PromptTemplate.Yaml

structure ParserState where
  tokens : List Token
  /-- Tag handles and what they stand for. -/
  handles : List (String × Tag)
  /-- The names of anchors so far, with the number of the latest one of each name. -/
  anchors : List (String × Nat)

abbrev NodeParser := StateT ParserState Option

namespace NodeParser

def fail {α : Type} : NodeParser α := fun _ => none

def peek : NodeParser (Option Token) := return (← get).tokens.head?

def skip : NodeParser Unit := modify fun s => { s with tokens := s.tokens.tail }

def takeIf (token : Token) : NodeParser Bool := do
  if (← peek) = some token then
    skip
    return true
  else return false

/-- The next token is one of these, or there is none. -/
def nextIn (tokens : List Token) : NodeParser Bool := do
  match ← peek with
  | some token => return tokens.contains token
  | none => return false

/-- Numbers an anchor by how many names there are. A name used again counts only once. -/
def defineAnchor (name : String) : NodeParser Nat := do
  let s ← get
  let number := s.anchors.length
  set { s with anchors := (name, number) :: s.anchors.filter (·.1 ≠ name) }
  return number

def anchorNumber (name : String) : NodeParser Nat := do
  match (← get).anchors.find? (·.1 = name) with
  | some (_, number) => return number
  | none => fail

def takeAnchor : NodeParser (Option String) := do
  match ← peek with
  | some (.anchor name) =>
    skip
    return some name
  | _ => return none

def takeTag : NodeParser (Option Tag) := do
  match ← peek with
  | some (.tag handle suffix) =>
    skip
    if handle.isEmpty then return some suffix
    match (← get).handles.find? (·.1 = handle) with
    | some (_, stem) => return some (stem ++ suffix)
    | none => fail
  | _ => return none

/-- An anchor and a tag, in either order. -/
def properties : NodeParser (Option String × Option Tag) := do
  match ← takeAnchor with
  | some name => return (some name, ← takeTag)
  | none =>
    let tag ← takeTag
    return (← takeAnchor, tag)

/-- A node, unless one of these tokens shows that it is missing. -/
def nodeUnless (node : NodeParser Node) (closers : List Token) : NodeParser Node := do
  if ← nextIn closers then return .empty else node

/-! Entries of collections, given the parsers for the nodes in them. -/

def blockItems (node : NodeParser Node) : (budget : Nat) → NodeParser (List Node)
  | 0 => fail
  | budget + 1 => do
    if ← takeIf .blockEntry then
      let item ← nodeUnless node [.blockEntry, .blockEnd]
      return item :: (← blockItems node budget)
    else if ← takeIf .blockEnd then return []
    else fail

/-- Items in the column of the key they belong to; nothing marks their end. -/
def unindentedItems (node : NodeParser Node) : (budget : Nat) → NodeParser (List Node)
  | 0 => fail
  | budget + 1 => do
    if ← takeIf .blockEntry then
      let item ← nodeUnless node [.blockEntry, .key, .value, .blockEnd]
      return item :: (← unindentedItems node budget)
    else return []

def blockEntries (node : NodeParser Node) : (budget : Nat) → NodeParser (List (Node × Node))
  | 0 => fail
  | budget + 1 => do
    if ← takeIf .key then
      let key ← nodeUnless node [.key, .value, .blockEnd]
      let value ←
        if ← takeIf .value then nodeUnless node [.key, .value, .blockEnd] else pure Node.empty
      return (key, value) :: (← blockEntries node budget)
    else if ← takeIf .blockEnd then return []
    else fail

/-- A key and its value as an item of a sequence in brackets, after the token for the key. A
missing key takes the token that stands in its place. -/
def singlePair (node : NodeParser Node) : NodeParser Node := do
  let key ←
    if ← nextIn [.value, .flowEntry, .flowSequenceEnd] then do
      skip
      pure Node.empty
    else node
  let value ←
    if ← takeIf .value then nodeUnless node [.flowEntry, .flowSequenceEnd] else pure Node.empty
  return .mapping ⟨none, none⟩ [(key, value)]

def separator : NodeParser Unit := do
  if !(← takeIf .flowEntry) then fail

/-- After the start of a sequence in brackets, or after one of its items. -/
def flowItems (node : NodeParser Node) : (budget : Nat) → (isFirst : Bool) → NodeParser (List Node)
  | 0, _ => fail
  | budget + 1, isFirst => do
    if ← takeIf .flowSequenceEnd then return []
    if !isFirst then separator
    if ← takeIf .key then
      let item ← singlePair node
      return item :: (← flowItems node budget false)
    else if ← takeIf .flowSequenceEnd then return []
    else
      let item ← node
      return item :: (← flowItems node budget false)

/-- After the start of a mapping in braces, or after one of its entries. -/
def flowEntries (node : NodeParser Node) :
    (budget : Nat) → (isFirst : Bool) → NodeParser (List (Node × Node))
  | 0, _ => fail
  | budget + 1, isFirst => do
    if ← takeIf .flowMappingEnd then return []
    if !isFirst then separator
    if ← takeIf .key then
      let key ← nodeUnless node [.value, .flowEntry, .flowMappingEnd]
      let value ←
        if ← takeIf .value then nodeUnless node [.flowEntry, .flowMappingEnd]
        else pure Node.empty
      return (key, value) :: (← flowEntries node budget false)
    else if ← takeIf .flowMappingEnd then return []
    else
      let key ← node
      return (key, Node.empty) :: (← flowEntries node budget false)

/-- Where a node stands decides what it may be. -/
inductive Place where
  | block
  /-- A key or a value of a block mapping, where items need not be indented. -/
  | entry
  | flow
deriving DecidableEq

/-- The contents of a node after its properties, none if there are none. -/
def content (place : Place) (node : Place → NodeParser Node) (budget : Nat)
    (properties : Properties) : NodeParser (Option Node) := do
  let isBlock := place ≠ .flow
  match ← peek with
  | some (.scalar plain text) =>
    skip
    return some (.scalar properties plain text)
  | some .blockEntry =>
    if place = .entry then
      return some (.sequence properties (← unindentedItems (node .block) budget))
    else return none
  | some .flowSequenceStart =>
    skip
    return some (.sequence properties (← flowItems (node .flow) budget true))
  | some .flowMappingStart =>
    skip
    return some (.mapping properties (← flowEntries (node .flow) budget true))
  | some .blockSequenceStart =>
    if isBlock then
      skip
      return some (.sequence properties (← blockItems (node .block) budget))
    else return none
  | some .blockMappingStart =>
    if isBlock then
      skip
      return some (.mapping properties (← blockEntries (node .entry) budget))
    else return none
  | _ => return none

/-- A node. Without contents it must have an anchor or a tag. -/
def node : (budget : Nat) → Place → NodeParser Node
  | 0, _ => fail
  | budget + 1, place => do
    match ← peek with
    | some (.aliasOf name) =>
      skip
      return .aliasOf (← anchorNumber name)
    | _ =>
      let (anchorName, tag) ← properties
      let anchor ← match anchorName with
        | some name => pure (some (← defineAnchor name))
        | none => pure none
      match ← content place (node budget) (budget + 1) ⟨anchor, tag⟩ with
      | some found => return found
      | none =>
        if anchor.isSome || tag.isSome then return .scalar ⟨anchor, tag⟩ true ""
        else fail

def standardHandles : List (String × Tag) := [("!", Tag.ofChars ['!']), ("!!", Tag.core "")]

/-- The directives in front of a document; each may be given once. -/
def directives : (budget : Nat) → (versioned : Bool) → NodeParser Bool
  | 0, _ => fail
  | budget + 1, versioned => do
    match ← peek with
    | some (.version major minor) =>
      if versioned || major ≠ 1 || (minor ≠ 1 && minor ≠ 2) then fail
      skip
      discard <| directives budget true
      return true
    | some (.handle handle stem) =>
      let s ← get
      if s.handles.any (·.1 = handle) then fail
      set { s with handles := s.handles ++ [(handle, stem)] }
      skip
      discard <| directives budget versioned
      return true
    | _ => return false

/-- The ends of a document, after which there must be nothing. -/
def documentEnd : (budget : Nat) → NodeParser Unit
  | 0 => fail
  | budget + 1 => do
    if ← takeIf .documentEnd then documentEnd budget
    else if (← peek).isSome then fail

/-- The node of the only document of a stream, none if there is no document. -/
def document (budget : Nat) : NodeParser (Option Node) := do
  if (← peek).isNone then return none
  let directed ← directives budget false
  modify fun s => { s with handles := s.handles ++ standardHandles }
  let root ←
    if ← takeIf .documentStart then
      if (← peek).isNone then pure Node.empty
      else
        match ← peek with
        | some (.version _ _) => pure Node.empty
        | some (.handle _ _) => pure Node.empty
        | _ => nodeUnless (node budget .block) [.documentStart, .documentEnd]
    else if directed then fail
    else node budget .block
  documentEnd budget
  return some root

end NodeParser

/-- The only document of a stream of tokens, none if the tokens are not in order. -/
def document? (tokens : List Token) : Option (Option Node) :=
  let budget := 2 * tokens.length + 2
  ((NodeParser.document budget).run ⟨tokens, [], []⟩).map Prod.fst

end PromptTemplate.Yaml
