import PromptTemplate.Node

/-!
# The spans of a tree

`Spanned P` says that all spans in an expression, a pattern, a tag or a node
have the property `P`.
-/

namespace PromptTemplate

variable (P : Span → Prop)

mutual

def Expr.Spanned : Expr → Prop
  | .literal span _ | .identifier span _ => P span
  | .member span object property _ => P span ∧ object.Spanned ∧ property.Spanned
  | .array span elements => P span ∧ Element.AllSpanned elements
  | .object span entries => P span ∧ Entry.AllSpanned entries
  | .call span callee arguments => P span ∧ callee.Spanned ∧ Element.AllSpanned arguments
  | .unary span _ operand => P span ∧ operand.Spanned
  | .binary span _ left right => P span ∧ left.Spanned ∧ right.Spanned
  | .conditional span test consequent alternate =>
    P span ∧ test.Spanned ∧ consequent.Spanned ∧ alternate.Spanned
  | .assignment span _ target value => P span ∧ target.Spanned ∧ value.Spanned
  | .update span _ _ target => P span ∧ target.Spanned

def Property.Spanned : Property → Prop
  | .named _ => True
  | .computed key => key.Spanned

def Element.AllSpanned : List Element → Prop
  | [] => True
  | .single value :: rest | .spread value :: rest => value.Spanned ∧ Element.AllSpanned rest

def Entry.AllSpanned : List Entry → Prop
  | [] => True
  | .named _ value :: rest | .spread value :: rest => value.Spanned ∧ Entry.AllSpanned rest
  | .computed key value :: rest => key.Spanned ∧ value.Spanned ∧ Entry.AllSpanned rest

end

mutual

def Pattern.Spanned : Pattern → Prop
  | .ident name => P name.span
  | .object entries => Pattern.EntriesSpanned entries
  | .array items => Pattern.ItemsSpanned items

def Pattern.EntriesSpanned : List (Ident × Pattern) → Prop
  | [] => True
  | (key, pattern) :: rest => P key.span ∧ pattern.Spanned ∧ Pattern.EntriesSpanned rest

def Pattern.ItemsSpanned : List Pattern → Prop
  | [] => True
  | pattern :: rest => pattern.Spanned ∧ Pattern.ItemsSpanned rest

end

def AttributeValue.Spanned : AttributeValue → Prop
  | .flag | .literal _ => True
  | .expression value => value.Spanned P

def Attribute.Spanned (a : Attribute) : Prop := P a.span ∧ a.value.Spanned P

structure Tag.Spanned (tag : Tag) : Prop where
  head : P tag.span
  attributes : ∀ a ∈ tag.attributes, a.Spanned P

mutual

def Node.Spanned : Node → Prop
  | .config span _ | .text span _ => P span
  | .mustache span value => P span ∧ value.Spanned P
  | .ifBlock span condition consequent alternates =>
    P span ∧ condition.Spanned P ∧ Node.AllSpanned consequent ∧ Alternate.AllSpanned alternates
  | .eachBlock span iterable item index body fallback =>
    P span ∧ iterable.Spanned P ∧ item.Spanned P ∧ (∀ i ∈ index, P i.span) ∧
      Node.AllSpanned body ∧ Node.FallbackSpanned fallback
  | .tag head children => head.Spanned P ∧ Node.AllSpanned children

def Node.AllSpanned : List Node → Prop
  | [] => True
  | node :: rest => node.Spanned ∧ Node.AllSpanned rest

def Alternate.AllSpanned : List Alternate → Prop
  | [] => True
  | .elseIf condition body :: rest =>
    condition.Spanned P ∧ Node.AllSpanned body ∧ Alternate.AllSpanned rest
  | .otherwise body :: rest => Node.AllSpanned body ∧ Alternate.AllSpanned rest

def Node.FallbackSpanned : Option (List Node) → Prop
  | none => True
  | some body => Node.AllSpanned body

end

variable {P}

theorem Expr.Spanned.own {e : Expr} (h : e.Spanned P) : P e.span := by
  cases e with
  | literal | identifier => exact h
  | _ => exact h.1

theorem Node.AllSpanned.append {nodes more : List Node} (h : Node.AllSpanned P nodes)
    (hmore : Node.AllSpanned P more) : Node.AllSpanned P (nodes ++ more) := by
  induction nodes with
  | nil => exact hmore
  | cons node nodes ih => exact ⟨h.1, ih h.2⟩

end PromptTemplate
