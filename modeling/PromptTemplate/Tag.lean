import PromptTemplate.Role

/-!
# Kinds of tags

What a tag is for follows from its name alone.
-/

namespace PromptTemplate

inductive ContentKind where
  | text | image
deriving DecidableEq

def ContentKind.ofName? (name : String) : Option ContentKind :=
  if name = "text" then some .text else if name = "image" then some .image else none

inductive TagKind where
  /-- Without a role when an attribute has to give it. -/
  | message (role : Option Role)
  /-- Without a kind when an attribute may give it. -/
  | content (kind : Option ContentKind)
  | toolCall
  | reference
  | generic
deriving DecidableEq

namespace TagKind

def ofName (name : String) : TagKind :=
  if name = "message" then message none
  else if name = "content" then content none
  else if name = "tool-call" then toolCall
  else if name = "reference" ∨ name = "ref" then reference
  else match Role.ofName? name, ContentKind.ofName? name with
    | some role, _ => message (some role)
    | none, some kind => content (some kind)
    | none, none => generic

/-- The attributes that may hold nothing but literal text. -/
def literalAttributes : TagKind → List String
  | reference => ["prompt"]
  | content none => ["type"]
  | _ => []

end TagKind

end PromptTemplate
