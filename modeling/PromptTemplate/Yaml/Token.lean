import PromptTemplate.Yaml.Tag

/-!
# YAML tokens

Brackets, indicators and scalars. The start and end of structures that show only in the
indentation are tokens, too.
-/

namespace PromptTemplate.Yaml

inductive Token where
  | version (major minor : Nat)
  | handle (handle : String) (stem : Tag)
  | documentStart
  | documentEnd
  | blockSequenceStart
  | blockMappingStart
  | blockEnd
  | flowSequenceStart
  | flowSequenceEnd
  | flowMappingStart
  | flowMappingEnd
  | blockEntry
  | flowEntry
  | key
  | value
  | aliasOf (name : String)
  | anchor (name : String)
  | tag (handle : String) (suffix : Tag)
  | scalar (plain : Bool) (text : String)
deriving DecidableEq

end PromptTemplate.Yaml
