/-!
# YAML tags

The text of a tag is spelled in characters and in escaped bytes. Bytes that have the shape of a
character without being one keep a place in the text, but such a tag cannot be read.
-/

namespace PromptTemplate.Yaml

/-- The characters of a tag, none for bytes that are no character. -/
abbrev Tag := List (Option Char)

namespace Tag

def ofChars (cs : List Char) : Tag := cs.map some

/-- The tags that every document knows. -/
def core (name : String) : Tag := ofChars ("tag:yaml.org,2002:" ++ name).toList

/-- A tag ends in front of a null character. -/
def untilNull (tag : Tag) : Tag := tag.takeWhile (· ≠ some '\x00')

/-- A tag of the document's own. -/
def isLocal (tag : Tag) : Bool := tag.head? = some (some '!')

def isReadable (tag : Tag) : Bool := tag.all Option.isSome

end Tag

end PromptTemplate.Yaml
