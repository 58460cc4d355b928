import PromptTemplate.Node

/-!
# Syntax without its places

Trees with all spans replaced by one. Two trees are equal up to spans if they
are equal after that.
-/

namespace PromptTemplate

def Span.nowhere : Span := ⟨0, 0, 0, 0⟩

mutual

def Expr.erase : Expr → Expr
  | .literal _ value => .literal .nowhere value
  | .identifier _ name => .identifier .nowhere name
  | .member _ object property optional => .member .nowhere object.erase property.erase optional
  | .array _ elements => .array .nowhere (Element.eraseAll elements)
  | .object _ entries => .object .nowhere (Entry.eraseAll entries)
  | .call _ callee arguments => .call .nowhere callee.erase (Element.eraseAll arguments)
  | .unary _ op operand => .unary .nowhere op operand.erase
  | .binary _ op left right => .binary .nowhere op left.erase right.erase
  | .conditional _ test consequent alternate =>
    .conditional .nowhere test.erase consequent.erase alternate.erase
  | .assignment _ op target value => .assignment .nowhere op target.erase value.erase
  | .update _ op side target => .update .nowhere op side target.erase

def Property.erase : Property → Property
  | .named name => .named name
  | .computed key => .computed key.erase

def Element.eraseAll : List Element → List Element
  | [] => []
  | .single value :: rest => .single value.erase :: Element.eraseAll rest
  | .spread value :: rest => .spread value.erase :: Element.eraseAll rest

def Entry.eraseAll : List Entry → List Entry
  | [] => []
  | .named key value :: rest => .named key value.erase :: Entry.eraseAll rest
  | .computed key value :: rest => .computed key.erase value.erase :: Entry.eraseAll rest
  | .spread value :: rest => .spread value.erase :: Entry.eraseAll rest

end

def Ident.erase (ident : Ident) : Ident := ⟨ident.name, .nowhere⟩

mutual

def Pattern.erase : Pattern → Pattern
  | .ident name => .ident name.erase
  | .object entries => .object (Pattern.eraseEntries entries)
  | .array items => .array (Pattern.eraseItems items)

def Pattern.eraseEntries : List (Ident × Pattern) → List (Ident × Pattern)
  | [] => []
  | (key, pattern) :: rest => (key.erase, pattern.erase) :: Pattern.eraseEntries rest

def Pattern.eraseItems : List Pattern → List Pattern
  | [] => []
  | pattern :: rest => pattern.erase :: Pattern.eraseItems rest

end

def AttributeValue.erase : AttributeValue → AttributeValue
  | .flag => .flag
  | .literal text => .literal text
  | .expression value => .expression value.erase

def Attribute.erase (a : Attribute) : Attribute := ⟨a.name, .nowhere, a.value.erase⟩

def Tag.erase (tag : Tag) : Tag :=
  ⟨.nowhere, tag.kind, tag.name, tag.attributes.map Attribute.erase⟩

mutual

def Node.erase : Node → Node
  | .config _ entries => .config .nowhere entries
  | .text _ value => .text .nowhere value
  | .mustache _ value => .mustache .nowhere value.erase
  | .ifBlock _ condition consequent alternates =>
    .ifBlock .nowhere condition.erase (Node.eraseAll consequent) (Alternate.eraseAll alternates)
  | .eachBlock _ iterable item index body fallback =>
    .eachBlock .nowhere iterable.erase item.erase (index.map Ident.erase) (Node.eraseAll body)
      (Node.eraseFallback fallback)
  | .tag head children => .tag head.erase (Node.eraseAll children)

def Node.eraseAll : List Node → List Node
  | [] => []
  | node :: rest => node.erase :: Node.eraseAll rest

def Alternate.eraseAll : List Alternate → List Alternate
  | [] => []
  | .elseIf condition body :: rest =>
    .elseIf condition.erase (Node.eraseAll body) :: Alternate.eraseAll rest
  | .otherwise body :: rest => .otherwise (Node.eraseAll body) :: Alternate.eraseAll rest

def Node.eraseFallback : Option (List Node) → Option (List Node)
  | none => none
  | some body => some (Node.eraseAll body)

end

def Document.erase (document : Document) : Document := ⟨Node.eraseAll document.nodes⟩

end PromptTemplate
