import PromptTemplate.Proofs.Syntax.Spans

/-!
# The outline of a tree

The outline of an expression or a node is its span with the outlines of the
expressions and nodes right inside it, in the order of the source. It is
nested if no span in it is empty and the parts of each span lie inside it, one
after the other.
-/

namespace PromptTemplate

inductive Outline where
  | mk (span : Span) (parts : List Outline)

namespace Outline

def span : Outline → Span
  | ⟨span, _⟩ => span

def leaf (span : Span) : Outline := ⟨span, []⟩

@[simp] theorem leaf_span (span : Span) : (leaf span).span = span := rfl

/-- All spans of the outline have the property `P`. -/
inductive All (P : Span → Prop) : Outline → Prop
  | mk {span : Span} {parts : List Outline} (own : P span) (inner : ∀ part ∈ parts, part.All P) :
    All P ⟨span, parts⟩

inductive Nested : Outline → Prop
  | mk {span : Span} {parts : List Outline} (nonempty : span.start < span.stop)
      (inside : ∀ part ∈ parts, span.start ≤ part.span.start ∧ part.span.stop ≤ span.stop)
      (increasing : parts.Pairwise fun part later => part.span.stop ≤ later.span.start)
      (inner : ∀ part ∈ parts, part.Nested) : Nested ⟨span, parts⟩

variable {P Q : Span → Prop} {o : Outline} {span : Span}

theorem All.mono (h : o.All P) (himp : ∀ span, P span → Q span) : o.All Q := by
  induction h with
  | mk own inner ih => exact ⟨himp _ own, ih⟩

theorem All.leaf (h : P span) : (Outline.leaf span).All P := ⟨h, nofun⟩

theorem Nested.leaf (h : span.start < span.stop) : (Outline.leaf span).Nested :=
  ⟨h, nofun, .nil, nofun⟩

theorem Nested.nonempty (h : o.Nested) : o.span.start < o.span.stop := by
  cases h with
  | mk nonempty => exact nonempty

-- ---------------------------------------------------------------------------
-- Rows
-- ---------------------------------------------------------------------------

/-- Nested pieces that stand one after the other between two offsets. -/
structure Row (first last : Nat) (pieces : List Outline) : Prop where
  bounds : first ≤ last
  inside : ∀ piece ∈ pieces, first ≤ piece.span.start ∧ piece.span.stop ≤ last
  increasing : pieces.Pairwise fun piece later => piece.span.stop ≤ later.span.start
  nested : ∀ piece ∈ pieces, piece.Nested

namespace Row

variable {first middle last : Nat} {pieces more : List Outline}

theorem nil (h : first ≤ last) : Row first last [] := ⟨h, nofun, .nil, nofun⟩

theorem leaf (hfirst : first ≤ span.start) (hspan : span.start < span.stop)
    (hlast : span.stop ≤ last) : Row first last [.leaf span] where
  bounds := by omega
  inside := List.forall_mem_singleton.mpr ⟨hfirst, hlast⟩
  increasing := List.pairwise_singleton ..
  nested := List.forall_mem_singleton.mpr (.leaf hspan)

theorem append (h : Row first middle pieces) (hmore : Row middle last more) :
    Row first last (pieces ++ more) where
  bounds := Nat.le_trans h.bounds hmore.bounds
  inside := List.forall_mem_append.mpr
    ⟨fun piece hpiece => ⟨(h.inside piece hpiece).1,
        Nat.le_trans (h.inside piece hpiece).2 hmore.bounds⟩,
      fun piece hpiece => ⟨Nat.le_trans h.bounds (hmore.inside piece hpiece).1,
        (hmore.inside piece hpiece).2⟩⟩
  increasing := List.pairwise_append.mpr ⟨h.increasing, hmore.increasing,
    fun piece hpiece later hlater =>
      Nat.le_trans (h.inside piece hpiece).2 (hmore.inside later hlater).1⟩
  nested := List.forall_mem_append.mpr ⟨h.nested, hmore.nested⟩

/-- Pieces may be left out. -/
theorem sublist (h : Row first last pieces) (hsub : more.Sublist pieces) : Row first last more where
  bounds := h.bounds
  inside piece hpiece := h.inside piece (hsub.subset hpiece)
  increasing := h.increasing.sublist hsub
  nested piece hpiece := h.nested piece (hsub.subset hpiece)

/-- The join of the first piece of a row and the last one ends with the last one. -/
theorem join_stop {opening closing : Outline} {between : List Outline}
    (h : Row first last (opening :: (between ++ [closing]))) :
    (opening.span.join closing.span).stop = closing.span.stop := by
  have hclosing := (h.nested closing (by simp)).nonempty
  have hapart : opening.span.stop ≤ closing.span.start :=
    List.rel_of_pairwise_cons h.increasing (by simp)
  simp only [Span.join]
  omega

/-- The pieces of a row from its first piece to its last one, or some of them, become the parts of
one piece, whose span is the join of those two. -/
theorem join {opening closing : Outline} (between : List Outline) {parts : List Outline}
    (h : Row first last (opening :: (between ++ [closing])))
    (hspan : span = opening.span.join closing.span)
    (hsub : parts.Sublist (opening :: (between ++ [closing]))) :
    Row first last [⟨span, parts⟩] := by
  subst hspan
  have hstop := h.join_stop
  obtain ⟨hbounds, hinside, hincreasing, hnested⟩ := h
  have hmem : closing ∈ opening :: (between ++ [closing]) := by simp
  have hopening := (hnested opening List.mem_cons_self).nonempty
  have hclosing := (hnested closing hmem).nonempty
  have hapart : opening.span.stop ≤ closing.span.start :=
    List.rel_of_pairwise_cons hincreasing (by simp)
  have hafter : ∀ piece ∈ opening :: (between ++ [closing]),
      opening.span.start ≤ piece.span.start := by
    refine List.forall_mem_cons.mpr ⟨Nat.le_refl _, fun piece hpiece => ?_⟩
    exact Nat.le_trans (Nat.le_of_lt hopening) (List.rel_of_pairwise_cons hincreasing hpiece)
  have hbefore : ∀ piece ∈ (opening :: between) ++ [closing],
      piece.span.stop ≤ closing.span.stop := by
    rw [← List.cons_append] at hincreasing
    refine List.forall_mem_append.mpr ⟨fun piece hpiece => ?_, by simp⟩
    have hlater := (List.pairwise_append.mp hincreasing).2.2 piece hpiece closing
    exact Nat.le_trans (hlater List.mem_cons_self) (Nat.le_of_lt hclosing)
  exact {
    bounds := hbounds
    inside := by
      rw [List.forall_mem_singleton]
      exact ⟨(hinside opening List.mem_cons_self).1, hstop ▸ (hinside closing hmem).2⟩
    increasing := List.pairwise_singleton ..
    nested := by
      rw [List.forall_mem_singleton]
      refine ⟨?_, fun part hpart => ?_, hincreasing.sublist hsub, fun part hpart => ?_⟩
      · rw [hstop]
        exact Nat.lt_of_lt_of_le hopening (Nat.le_trans hapart (Nat.le_of_lt hclosing))
      · rw [hstop]
        exact ⟨hafter part (hsub.subset hpart), hbefore part (hsub.subset hpart)⟩
      · exact hnested part (hsub.subset hpart) }

end Row
end Outline

-- ---------------------------------------------------------------------------
-- Expressions
-- ---------------------------------------------------------------------------

mutual

def Expr.outline : Expr → Outline
  | .literal span _ | .identifier span _ => .leaf span
  | .member span object property _ => ⟨span, object.outline :: property.outlines⟩
  | .array span elements => ⟨span, Element.outlines elements⟩
  | .object span entries => ⟨span, Entry.outlines entries⟩
  | .call span callee arguments => ⟨span, callee.outline :: Element.outlines arguments⟩
  | .unary span _ operand => ⟨span, [operand.outline]⟩
  | .binary span _ left right => ⟨span, [left.outline, right.outline]⟩
  | .conditional span test consequent alternate =>
    ⟨span, [test.outline, consequent.outline, alternate.outline]⟩
  | .assignment span _ target value => ⟨span, [target.outline, value.outline]⟩
  | .update span _ _ target => ⟨span, [target.outline]⟩

def Property.outlines : Property → List Outline
  | .named _ => []
  | .computed key => [key.outline]

def Element.outlines : List Element → List Outline
  | [] => []
  | .single value :: rest | .spread value :: rest => value.outline :: Element.outlines rest

def Entry.outlines : List Entry → List Outline
  | [] => []
  | .named _ value :: rest | .spread value :: rest => value.outline :: Entry.outlines rest
  | .computed key value :: rest => key.outline :: value.outline :: Entry.outlines rest

end

@[simp] theorem Expr.outline_span (e : Expr) : e.outline.span = e.span := by
  cases e <;> rfl

-- ---------------------------------------------------------------------------
-- Nodes
-- ---------------------------------------------------------------------------

def AttributeValue.outlines : AttributeValue → List Outline
  | .flag | .literal _ => []
  | .expression value => [value.outline]

def Attribute.outlines (attributes : List Attribute) : List Outline :=
  attributes.flatMap (·.value.outlines)

mutual

/-- Of an if block: the condition, the body, and the conditions and bodies of its alternatives. Of a
loop: what it goes through, the body and the fallback. Of a tag: the values of its attributes, and
its children. -/
def Node.outline : Node → Outline
  | .config span _ | .text span _ => .leaf span
  | .mustache span value => ⟨span, [value.outline]⟩
  | .ifBlock span condition consequent alternates =>
    ⟨span, condition.outline :: (Node.outlines consequent ++ Alternate.outlines alternates)⟩
  | .eachBlock span iterable _ _ body fallback =>
    ⟨span, iterable.outline :: (Node.outlines body ++ Node.fallbackOutlines fallback)⟩
  | .tag head children => ⟨head.span, Attribute.outlines head.attributes ++ Node.outlines children⟩

def Node.outlines : List Node → List Outline
  | [] => []
  | node :: rest => node.outline :: Node.outlines rest

def Alternate.outlines : List Alternate → List Outline
  | [] => []
  | .elseIf condition body :: rest =>
    condition.outline :: (Node.outlines body ++ Alternate.outlines rest)
  | .otherwise body :: rest => Node.outlines body ++ Alternate.outlines rest

def Node.fallbackOutlines : Option (List Node) → List Outline
  | none => []
  | some body => Node.outlines body

end

theorem Node.outlines_append (nodes more : List Node) :
    Node.outlines (nodes ++ more) = Node.outlines nodes ++ Node.outlines more := by
  induction nodes with
  | nil => rfl
  | cons node nodes ih => exact congrArg (node.outline :: ·) ih

-- ---------------------------------------------------------------------------
-- The spans of outlines
-- ---------------------------------------------------------------------------

variable {P : Span → Prop}

mutual

theorem Expr.outline_all : (e : Expr) → e.Spanned P → e.outline.All P
  | .literal .., h | .identifier .., h => .leaf h
  | .member _ base property _, h =>
    ⟨h.1, List.forall_mem_cons.mpr ⟨base.outline_all h.2.1, property.outlines_all h.2.2⟩⟩
  | .array _ elements, h => ⟨h.1, Element.outlines_all elements h.2⟩
  | .object _ entries, h => ⟨h.1, Entry.outlines_all entries h.2⟩
  | .call _ callee arguments, h =>
    ⟨h.1, List.forall_mem_cons.mpr ⟨callee.outline_all h.2.1, Element.outlines_all arguments h.2.2⟩⟩
  | .unary _ _ operand, h | .update _ _ _ operand, h =>
    ⟨h.1, List.forall_mem_singleton.mpr (operand.outline_all h.2)⟩
  | .binary _ _ left right, h | .assignment _ _ left right, h =>
    ⟨h.1, List.forall_mem_cons.mpr
      ⟨left.outline_all h.2.1, List.forall_mem_singleton.mpr (right.outline_all h.2.2)⟩⟩
  | .conditional _ test consequent alternate, h =>
    ⟨h.1, List.forall_mem_cons.mpr ⟨test.outline_all h.2.1, List.forall_mem_cons.mpr
      ⟨consequent.outline_all h.2.2.1,
        List.forall_mem_singleton.mpr (alternate.outline_all h.2.2.2)⟩⟩⟩

theorem Property.outlines_all : (property : Property) → property.Spanned P →
    ∀ o ∈ property.outlines, o.All P
  | .named _, _ => nofun
  | .computed key, h => List.forall_mem_singleton.mpr (key.outline_all h)

theorem Element.outlines_all : (elements : List Element) → Element.AllSpanned P elements →
    ∀ o ∈ Element.outlines elements, o.All P
  | [], _ => nofun
  | .single value :: rest, h | .spread value :: rest, h =>
    List.forall_mem_cons.mpr ⟨value.outline_all h.1, Element.outlines_all rest h.2⟩

theorem Entry.outlines_all : (entries : List Entry) → Entry.AllSpanned P entries →
    ∀ o ∈ Entry.outlines entries, o.All P
  | [], _ => nofun
  | .named _ value :: rest, h | .spread value :: rest, h =>
    List.forall_mem_cons.mpr ⟨value.outline_all h.1, Entry.outlines_all rest h.2⟩
  | .computed key value :: rest, h =>
    List.forall_mem_cons.mpr ⟨key.outline_all h.1, List.forall_mem_cons.mpr
      ⟨value.outline_all h.2.1, Entry.outlines_all rest h.2.2⟩⟩

end

theorem Attribute.outlines_all {attributes : List Attribute} (h : ∀ a ∈ attributes, a.Spanned P) :
    ∀ o ∈ Attribute.outlines attributes, o.All P := by
  intro o ho
  obtain ⟨⟨name, span, value⟩, ha, hvalue⟩ := List.mem_flatMap.mp ho
  cases value with
  | flag | literal => cases hvalue
  | expression value =>
    obtain rfl := List.mem_singleton.mp hvalue
    exact value.outline_all (h _ ha).2

mutual

theorem Node.outline_all : (node : Node) → node.Spanned P → node.outline.All P
  | .config .., h | .text .., h => .leaf h
  | .mustache _ value, h => ⟨h.1, List.forall_mem_singleton.mpr (value.outline_all h.2)⟩
  | .ifBlock _ condition consequent alternates, h =>
    ⟨h.1, List.forall_mem_cons.mpr ⟨condition.outline_all h.2.1, List.forall_mem_append.mpr
      ⟨Node.outlines_all consequent h.2.2.1, Alternate.outlines_all alternates h.2.2.2⟩⟩⟩
  | .eachBlock _ iterable _ _ body fallback, h =>
    ⟨h.1, List.forall_mem_cons.mpr ⟨iterable.outline_all h.2.1, List.forall_mem_append.mpr
      ⟨Node.outlines_all body h.2.2.2.2.1, Node.fallbackOutlines_all fallback h.2.2.2.2.2⟩⟩⟩
  | .tag _ children, h =>
    ⟨h.1.head, List.forall_mem_append.mpr
      ⟨Attribute.outlines_all h.1.attributes, Node.outlines_all children h.2⟩⟩

theorem Node.outlines_all : (nodes : List Node) → Node.AllSpanned P nodes →
    ∀ o ∈ Node.outlines nodes, o.All P
  | [], _ => nofun
  | node :: rest, h => List.forall_mem_cons.mpr ⟨node.outline_all h.1, Node.outlines_all rest h.2⟩

theorem Alternate.outlines_all : (alternates : List Alternate) → Alternate.AllSpanned P alternates →
    ∀ o ∈ Alternate.outlines alternates, o.All P
  | [], _ => nofun
  | .elseIf condition body :: rest, h =>
    List.forall_mem_cons.mpr ⟨condition.outline_all h.1, List.forall_mem_append.mpr
      ⟨Node.outlines_all body h.2.1, Alternate.outlines_all rest h.2.2⟩⟩
  | .otherwise body :: rest, h => List.forall_mem_append.mpr
    ⟨Node.outlines_all body h.1, Alternate.outlines_all rest h.2⟩

theorem Node.fallbackOutlines_all : (fallback : Option (List Node)) →
    Node.FallbackSpanned P fallback → ∀ o ∈ Node.fallbackOutlines fallback, o.All P
  | none, _ => nofun
  | some body, h => Node.outlines_all body h

end

end PromptTemplate
