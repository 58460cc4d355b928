import PromptTemplate.Yaml.Node.Parser
import PromptTemplate.Yaml.Scalar.Meaning
import PromptTemplate.Yaml.Token.Scanner

/-!
# YAML mappings as JSON

A document that is a mapping becomes a dictionary of JSON values in the order of its keys;
mappings inside it become objects. Keys are scalars, whose text counts whatever it means.
Containers may stand inside one another, and aliases may be followed, only so often.
-/

namespace PromptTemplate.Yaml

/-- How many containers may stand inside one another. -/
def depthLimit : Nat := 128

structure Aliases where
  /-- The nodes by the numbers of their anchors; of two with one number the later one counts. -/
  anchored : List (Nat × Node)
  /-- How often aliases may be followed. -/
  limit : Nat

/-- Reading counts how often aliases were followed. -/
abbrev Reading := StateT Nat Option

/-- What an alias stands for; any other node stands for itself. -/
def follow (aliases : Aliases) (node : Node) : Reading Node := do
  match node with
  | .aliasOf anchor =>
    let count := (← get) + 1
    if aliases.limit < count then failure
    set count
    match aliases.anchored.reverse.find? (·.1 = anchor) with
    | some (_, target) => return target
    | none => failure
  | _ => return node

def keyText (aliases : Aliases) (node : Node) : Reading String := do
  match ← follow aliases node with
  | .scalar _ _ text => return text
  | _ => failure

def readEntries (aliases : Aliases) (read : Node → Reading Json) :
    List (Node × Node) → Reading (List (String × Json))
  | [] => return []
  | (key, value) :: rest => do
    let key ← keyText aliases key
    let value ← read value
    return (key, value) :: (← readEntries aliases read rest)

/-- The tag of a container is one that a value cannot have. -/
def isForbidden : Option Tag → Bool
  | some tag => tag.isLocal && tag.isReadable
  | none => false

/-- The value of a node with at most `depth` containers inside one another. -/
def read (aliases : Aliases) : (depth : Nat) → Node → Reading Json
  | depth, node => do
    match ← follow aliases node with
    | .aliasOf _ => failure
    | .scalar properties plain text =>
      match scalarValue? properties.tag plain text with
      | some value => return value
      | none => failure
    | .sequence properties items =>
      match depth with
      | 0 => failure
      | depth + 1 =>
        if isForbidden properties.tag then failure
        return .array (← items.mapM (read aliases depth))
    | .mapping properties entries =>
      match depth with
      | 0 => failure
      | depth + 1 =>
        if isForbidden properties.tag then failure
        let entries ← readEntries aliases (read aliases depth) entries
        return .object (Json.sortFields entries)

/-- The entries of the outermost node, whatever its tag. Nothing is an empty mapping. -/
def readRoot (aliases : Aliases) : Node → Reading (Dict Json)
  | .mapping _ entries =>
    return Dict.ofList (← readEntries aliases (read aliases (depthLimit - 1)) entries)
  | .scalar _ plain text => if plain && text.isEmpty then return [] else failure
  | _ => failure

/-- The mapping that a text is, none if it is not YAML or no mapping. -/
def mapping? (text : String) : Option (Dict Json) := do
  match ← document? (← tokens? text) with
  | none => return []
  | some root =>
    let aliases : Aliases := ⟨root.anchored, 100 * root.size⟩
    return ((← (readRoot aliases root).run 0)).1

end PromptTemplate.Yaml
