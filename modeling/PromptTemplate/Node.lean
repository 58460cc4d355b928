import PromptTemplate.Expr
import PromptTemplate.Json
import PromptTemplate.Tag
import PromptTemplate.Text.Blank

/-!
# Documents

A template is a list of nodes: text, interpolations, blocks and tags, and at its front possibly the
opening section.
-/

namespace PromptTemplate

structure Ident where
  name : String
  span : Span
deriving DecidableEq

/-- What the items of a loop are bound to. -/
inductive Pattern where
  | ident (ident : Ident)
  | object (entries : List (Ident × Pattern))
  | array (items : List Pattern)

inductive AttributeValue where
  | flag
  | literal (text : String)
  | expression (value : Expr)

structure Attribute where
  name : String
  span : Span
  value : AttributeValue

/-- A tag without what is inside it. The names of its attributes are distinct. -/
structure Tag where
  span : Span
  kind : TagKind
  name : String
  attributes : List Attribute

mutual

inductive Node where
  | config (span : Span) (entries : Dict Json)
  | text (span : Span) (value : String)
  | mustache (span : Span) (value : Expr)
  | ifBlock (span : Span) (condition : Expr) (consequent : List Node) (alternates : List Alternate)
  | eachBlock (span : Span) (iterable : Expr) (item : Pattern) (index : Option Ident)
      (body : List Node) (fallback : Option (List Node))
  | tag (head : Tag) (children : List Node)

inductive Alternate where
  | elseIf (condition : Expr) (body : List Node)
  | otherwise (body : List Node)

end

namespace Node

def span : Node → Span
  | config span _ => span
  | text span _ => span
  | mustache span _ => span
  | ifBlock span .. => span
  | eachBlock span .. => span
  | tag head _ => head.span

/-- The name of this kind of node in messages. -/
def typeName : Node → String
  | config .. => "Config"
  | text .. => "Text"
  | mustache .. => "Mustache"
  | ifBlock .. => "IfBlock"
  | eachBlock .. => "EachBlock"
  | tag .. => "Tag"

def isBlankText : Node → Bool
  | text _ value => Text.isAllBlank value
  | _ => false

end Node

def Attribute.find? (attributes : List Attribute) (name : String) : Option Attribute :=
  attributes.find? (·.name = name)

def Tag.attribute? (tag : Tag) (name : String) : Option Attribute :=
  Attribute.find? tag.attributes name

structure Document where
  nodes : List Node

end PromptTemplate
