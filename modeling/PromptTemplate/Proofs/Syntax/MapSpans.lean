import PromptTemplate.CompileError
import PromptTemplate.Node
import PromptTemplate.Token

/-!
# Syntax at other places

Trees with a function applied to all their spans: the same text, read where it
stands somewhere else.
-/

namespace PromptTemplate

variable (f : Span → Span)

-- ---------------------------------------------------------------------------
-- Expressions
-- ---------------------------------------------------------------------------

mutual

def Expr.mapSpans : Expr → Expr
  | .literal span value => .literal (f span) value
  | .identifier span name => .identifier (f span) name
  | .member span object property optional =>
    .member (f span) object.mapSpans property.mapSpans optional
  | .array span elements => .array (f span) (Element.mapSpansAll elements)
  | .object span entries => .object (f span) (Entry.mapSpansAll entries)
  | .call span callee arguments => .call (f span) callee.mapSpans (Element.mapSpansAll arguments)
  | .unary span op operand => .unary (f span) op operand.mapSpans
  | .binary span op left right => .binary (f span) op left.mapSpans right.mapSpans
  | .conditional span test consequent alternate =>
    .conditional (f span) test.mapSpans consequent.mapSpans alternate.mapSpans
  | .assignment span op target value => .assignment (f span) op target.mapSpans value.mapSpans
  | .update span op side target => .update (f span) op side target.mapSpans

def Property.mapSpans : Property → Property
  | .named name => .named name
  | .computed key => .computed key.mapSpans

def Element.mapSpansAll : List Element → List Element
  | [] => []
  | .single value :: rest => .single value.mapSpans :: Element.mapSpansAll rest
  | .spread value :: rest => .spread value.mapSpans :: Element.mapSpansAll rest

def Entry.mapSpansAll : List Entry → List Entry
  | [] => []
  | .named key value :: rest => .named key value.mapSpans :: Entry.mapSpansAll rest
  | .computed key value :: rest =>
    .computed key.mapSpans value.mapSpans :: Entry.mapSpansAll rest
  | .spread value :: rest => .spread value.mapSpans :: Entry.mapSpansAll rest

end

def Entry.mapSpans : Entry → Entry
  | .named key value => .named key (value.mapSpans f)
  | .computed key value => .computed (key.mapSpans f) (value.mapSpans f)
  | .spread value => .spread (value.mapSpans f)

@[simp] theorem Expr.span_mapSpans (e : Expr) : (e.mapSpans f).span = f e.span := by
  cases e <;> rfl

@[simp] theorem Expr.isSideEffect_mapSpans (e : Expr) :
    (e.mapSpans f).isSideEffect = e.isSideEffect := by
  cases e <;> rfl

-- ---------------------------------------------------------------------------
-- Documents
-- ---------------------------------------------------------------------------

def Ident.mapSpans (ident : Ident) : Ident := ⟨ident.name, f ident.span⟩

mutual

def Pattern.mapSpans : Pattern → Pattern
  | .ident name => .ident (name.mapSpans f)
  | .object entries => .object (Pattern.mapSpansEntries entries)
  | .array items => .array (Pattern.mapSpansItems items)

def Pattern.mapSpansEntries : List (Ident × Pattern) → List (Ident × Pattern)
  | [] => []
  | (key, pattern) :: rest =>
    (key.mapSpans f, pattern.mapSpans) :: Pattern.mapSpansEntries rest

def Pattern.mapSpansItems : List Pattern → List Pattern
  | [] => []
  | pattern :: rest => pattern.mapSpans :: Pattern.mapSpansItems rest

end

def AttributeValue.mapSpans : AttributeValue → AttributeValue
  | .flag => .flag
  | .literal text => .literal text
  | .expression value => .expression (value.mapSpans f)

def Attribute.mapSpans (a : Attribute) : Attribute := ⟨a.name, f a.span, a.value.mapSpans f⟩

def Tag.mapSpans (tag : Tag) : Tag :=
  ⟨f tag.span, tag.kind, tag.name, tag.attributes.map (Attribute.mapSpans f)⟩

mutual

def Node.mapSpans : Node → Node
  | .config span entries => .config (f span) entries
  | .text span value => .text (f span) value
  | .mustache span value => .mustache (f span) (value.mapSpans f)
  | .ifBlock span condition consequent alternates =>
    .ifBlock (f span) (condition.mapSpans f) (Node.mapSpansAll consequent)
      (Alternate.mapSpansAll alternates)
  | .eachBlock span iterable item index body fallback =>
    .eachBlock (f span) (iterable.mapSpans f) (item.mapSpans f) (index.map (Ident.mapSpans f))
      (Node.mapSpansAll body) (Node.mapSpansFallback fallback)
  | .tag head children => .tag (head.mapSpans f) (Node.mapSpansAll children)

def Node.mapSpansAll : List Node → List Node
  | [] => []
  | node :: rest => node.mapSpans :: Node.mapSpansAll rest

def Alternate.mapSpansAll : List Alternate → List Alternate
  | [] => []
  | .elseIf condition body :: rest =>
    .elseIf (condition.mapSpans f) (Node.mapSpansAll body) :: Alternate.mapSpansAll rest
  | .otherwise body :: rest => .otherwise (Node.mapSpansAll body) :: Alternate.mapSpansAll rest

def Node.mapSpansFallback : Option (List Node) → Option (List Node)
  | none => none
  | some body => some (Node.mapSpansAll body)

end

def Document.mapSpans (document : Document) : Document := ⟨Node.mapSpansAll f document.nodes⟩

def Token.mapSpan (token : Token) : Token := ⟨token.kind, f token.span⟩

@[simp] theorem Token.kind_mapSpan (token : Token) : (token.mapSpan f).kind = token.kind := rfl

@[simp] theorem Token.span_mapSpan (token : Token) : (token.mapSpan f).span = f token.span := rfl

def CompileError.mapSpan (error : CompileError) : CompileError := ⟨error.cause, f error.location⟩

@[simp] theorem Node.isBlankText_mapSpans (node : Node) :
    (node.mapSpans f).isBlankText = node.isBlankText := by
  cases node <;> rfl

@[simp] theorem Node.mapSpansAll_append (nodes more : List Node) :
    Node.mapSpansAll f (nodes ++ more) = Node.mapSpansAll f nodes ++ Node.mapSpansAll f more := by
  induction nodes with
  | nil => rfl
  | cons node rest ih => simp only [List.cons_append, Node.mapSpansAll, ih]

theorem Node.all_isBlankText_mapSpans (nodes : List Node) :
    (Node.mapSpansAll f nodes).all Node.isBlankText = nodes.all Node.isBlankText := by
  induction nodes with
  | nil => rfl
  | cons node rest ih => simp only [Node.mapSpansAll, List.all_cons, ih, isBlankText_mapSpans]

theorem Attribute.find?_mapSpans (attributes : List Attribute) (name : String) :
    Attribute.find? (attributes.map (Attribute.mapSpans f)) name =
      (Attribute.find? attributes name).map (Attribute.mapSpans f) := by
  rw [Attribute.find?, List.find?_map]
  rfl

theorem Tag.attribute?_mapSpans (tag : Tag) (name : String) :
    (tag.mapSpans f).attribute? name = (tag.attribute? name).map (Attribute.mapSpans f) :=
  Attribute.find?_mapSpans ..

-- ---------------------------------------------------------------------------
-- Places that stay
-- ---------------------------------------------------------------------------

mutual

@[simp] theorem Expr.mapSpans_id : (e : Expr) → e.mapSpans id = e
  | .literal .. | .identifier .. => rfl
  | .member _ object property _ => by
    simp only [Expr.mapSpans, object.mapSpans_id, property.mapSpans_id, id]
  | .array _ elements => by simp only [Expr.mapSpans, Element.mapSpansAll_id elements, id]
  | .object _ entries => by simp only [Expr.mapSpans, Entry.mapSpansAll_id entries, id]
  | .call _ callee arguments => by
    simp only [Expr.mapSpans, callee.mapSpans_id, Element.mapSpansAll_id arguments, id]
  | .unary _ _ operand => by simp only [Expr.mapSpans, operand.mapSpans_id, id]
  | .binary _ _ left right => by simp only [Expr.mapSpans, left.mapSpans_id, right.mapSpans_id, id]
  | .conditional _ test consequent alternate => by
    simp only [Expr.mapSpans, test.mapSpans_id, consequent.mapSpans_id, alternate.mapSpans_id, id]
  | .assignment _ _ target value => by
    simp only [Expr.mapSpans, target.mapSpans_id, value.mapSpans_id, id]
  | .update _ _ _ target => by simp only [Expr.mapSpans, target.mapSpans_id, id]

theorem Property.mapSpans_id : (property : Property) → property.mapSpans id = property
  | .named _ => rfl
  | .computed key => by simp only [Property.mapSpans, key.mapSpans_id]

theorem Element.mapSpansAll_id : (elements : List Element) →
    Element.mapSpansAll id elements = elements
  | [] => rfl
  | .single value :: rest | .spread value :: rest => by
    simp only [Element.mapSpansAll, value.mapSpans_id, Element.mapSpansAll_id rest]

theorem Entry.mapSpansAll_id : (entries : List Entry) →
    Entry.mapSpansAll id entries = entries
  | [] => rfl
  | .named _ value :: rest | .spread value :: rest => by
    simp only [Entry.mapSpansAll, value.mapSpans_id, Entry.mapSpansAll_id rest]
  | .computed key value :: rest => by
    simp only [Entry.mapSpansAll, key.mapSpans_id, value.mapSpans_id, Entry.mapSpansAll_id rest]

end

mutual

@[simp] theorem Pattern.mapSpans_id : (pattern : Pattern) → pattern.mapSpans id = pattern
  | .ident _ => rfl
  | .object entries => by simp only [Pattern.mapSpans, Pattern.mapSpansEntries_id entries]
  | .array items => by simp only [Pattern.mapSpans, Pattern.mapSpansItems_id items]

theorem Pattern.mapSpansEntries_id :
    (entries : List (Ident × Pattern)) → mapSpansEntries id entries = entries
  | [] => rfl
  | (_, pattern) :: rest => by
    simp only [mapSpansEntries, pattern.mapSpans_id, mapSpansEntries_id rest]
    rfl

theorem Pattern.mapSpansItems_id : (items : List Pattern) → mapSpansItems id items = items
  | [] => rfl
  | pattern :: rest => by simp only [mapSpansItems, pattern.mapSpans_id, mapSpansItems_id rest]

end

@[simp] theorem Tag.mapSpans_id (tag : Tag) : tag.mapSpans id = tag := by
  have hattributes : tag.attributes.map (Attribute.mapSpans id) = tag.attributes := by
    refine List.map_id'' (fun a => ?_) _
    obtain ⟨name, span, value⟩ := a
    cases value <;> simp [Attribute.mapSpans, AttributeValue.mapSpans]
  rw [Tag.mapSpans, hattributes]
  rfl

mutual

@[simp] theorem Node.mapSpans_id : (node : Node) → node.mapSpans id = node
  | .config .. | .text .. => rfl
  | .mustache _ value => by simp only [Node.mapSpans, value.mapSpans_id, id]
  | .ifBlock _ condition consequent alternates => by
    simp only [Node.mapSpans, condition.mapSpans_id, Node.mapSpansAll_id consequent,
      Alternate.mapSpansAll_id alternates, id]
  | .eachBlock _ iterable item index body fallback => by
    have hindex : index.map (Ident.mapSpans id) = index := by cases index <;> rfl
    simp only [Node.mapSpans, iterable.mapSpans_id, item.mapSpans_id, hindex,
      Node.mapSpansAll_id body, Node.mapSpansFallback_id fallback, id]
  | .tag head children => by
    simp only [Node.mapSpans, head.mapSpans_id, Node.mapSpansAll_id children]

@[simp] theorem Node.mapSpansAll_id : (nodes : List Node) → Node.mapSpansAll id nodes = nodes
  | [] => rfl
  | node :: rest => by simp only [Node.mapSpansAll, node.mapSpans_id, Node.mapSpansAll_id rest]

theorem Alternate.mapSpansAll_id :
    (alternates : List Alternate) → Alternate.mapSpansAll id alternates = alternates
  | [] => rfl
  | .elseIf condition body :: rest => by
    simp only [Alternate.mapSpansAll, condition.mapSpans_id, Node.mapSpansAll_id body,
      Alternate.mapSpansAll_id rest]
  | .otherwise body :: rest => by
    simp only [Alternate.mapSpansAll, Node.mapSpansAll_id body, Alternate.mapSpansAll_id rest]

theorem Node.mapSpansFallback_id :
    (fallback : Option (List Node)) → Node.mapSpansFallback id fallback = fallback
  | none => rfl
  | some body => by simp only [Node.mapSpansFallback, Node.mapSpansAll_id body]

end

@[simp] theorem Document.mapSpans_id (document : Document) : document.mapSpans id = document := by
  rw [mapSpans, Node.mapSpansAll_id]

end PromptTemplate
