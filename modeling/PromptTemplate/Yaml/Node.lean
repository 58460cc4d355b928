import PromptTemplate.Yaml.Tag

/-!
# YAML nodes

The contents of a document as a tree. A node that has an anchor carries a number for it, and an
alias carries the number that the anchor of its name had where the alias stands.
-/

namespace PromptTemplate.Yaml

structure Properties where
  anchor : Option Nat
  /-- A full tag, its handle resolved. -/
  tag : Option Tag

inductive Node where
  | aliasOf (anchor : Nat)
  | scalar (properties : Properties) (plain : Bool) (text : String)
  | sequence (properties : Properties) (items : List Node)
  | mapping (properties : Properties) (entries : List (Node × Node))

namespace Node

def anchor? : Node → Option Nat
  | aliasOf _ => none
  | scalar p _ _ => p.anchor
  | sequence p _ => p.anchor
  | mapping p _ => p.anchor

/-- The scalar that stands where nothing is written. -/
def empty : Node := scalar ⟨none, none⟩ true ""

mutual

/-- The anchored nodes, outer ones first, in the order of the text. -/
def anchored (node : Node) : List (Nat × Node) :=
  let inner := match node with
    | aliasOf _ => []
    | scalar _ _ _ => []
    | sequence _ items => anchoredItems items
    | mapping _ entries => anchoredEntries entries
  match node.anchor? with
  | some anchor => (anchor, node) :: inner
  | none => inner

def anchoredItems : List Node → List (Nat × Node)
  | [] => []
  | item :: rest => anchored item ++ anchoredItems rest

def anchoredEntries : List (Node × Node) → List (Nat × Node)
  | [] => []
  | (key, value) :: rest => anchored key ++ anchored value ++ anchoredEntries rest

end

mutual

/-- The size of a tree: one for a leaf, two for the start and the end of a collection. -/
def size : Node → Nat
  | aliasOf _ => 1
  | scalar _ _ _ => 1
  | sequence _ items => sizeItems items + 2
  | mapping _ entries => sizeEntries entries + 2

def sizeItems : List Node → Nat
  | [] => 0
  | item :: rest => size item + sizeItems rest

def sizeEntries : List (Node × Node) → Nat
  | [] => 0
  | (key, value) :: rest => size key + size value + sizeEntries rest

end

end Node

end PromptTemplate.Yaml
