import PromptTemplate.Proofs.Syntax.Outline

/-!
# The layout of an expression

The layout of an expression is its outline with one more part in each call,
for the end of the call itself. So what is inside a call ends before the call
does.
-/

namespace PromptTemplate

/-- The last byte of a span. -/
def Span.last (span : Span) : Span := { span with start := span.stop - 1 }

namespace Outline

variable {first last : Nat} {span : Span} {piece : Outline} {pieces more : List Outline}

theorem Nested.parts (h : Nested ⟨span, pieces⟩) : ∀ part ∈ pieces, part.Nested := by
  cases h with
  | mk nonempty inside increasing inner => exact inner

/-- Parts may be left out, and others put in their places. -/
theorem Nested.replace (h : Nested ⟨span, pieces⟩)
    (hspans : (more.map Outline.span).Sublist (pieces.map Outline.span))
    (hnested : ∀ part ∈ more, part.Nested) : Nested ⟨span, more⟩ := by
  cases h with
  | mk nonempty inside increasing inner =>
    have hinside : ∀ s ∈ pieces.map Outline.span, span.start ≤ s.start ∧ s.stop ≤ span.stop := by
      intro s hs
      obtain ⟨part, hpart, rfl⟩ := List.mem_map.mp hs
      exact inside part hpart
    have hincreasing : (pieces.map Outline.span).Pairwise fun s later => s.stop ≤ later.start :=
      List.pairwise_map.mpr increasing
    exact ⟨nonempty, fun part hpart => hinside _ (hspans.subset (List.mem_map_of_mem hpart)),
      List.pairwise_map.mp (hincreasing.sublist hspans), hnested⟩

namespace Row

theorem single (h : piece.Nested) : Row piece.span.start piece.span.stop [piece] where
  bounds := Nat.le_of_lt h.nonempty
  inside := List.forall_mem_singleton.mpr ⟨Nat.le_refl _, Nat.le_refl _⟩
  increasing := List.pairwise_singleton ..
  nested := List.forall_mem_singleton.mpr h

/-- The parts of a piece are a row inside it. -/
theorem parts (h : Nested ⟨span, pieces⟩) : Row span.start span.stop pieces := by
  cases h with
  | mk nonempty inside increasing inner =>
    exact ⟨Nat.le_of_lt nonempty, inside, increasing, inner⟩

theorem head (h : Row first last (piece :: pieces)) : Row first piece.span.stop [piece] where
  bounds := by
    have hpiece := (h.nested piece List.mem_cons_self).nonempty
    exact Nat.le_trans (h.inside piece List.mem_cons_self).1 (Nat.le_of_lt hpiece)
  inside := List.forall_mem_singleton.mpr
    ⟨(h.inside piece List.mem_cons_self).1, Nat.le_refl _⟩
  increasing := List.pairwise_singleton ..
  nested := List.forall_mem_singleton.mpr (h.nested piece List.mem_cons_self)

/-- What stands behind the first piece of a row. -/
theorem tail (h : Row first last (piece :: pieces)) : Row piece.span.stop last pieces where
  bounds := (h.inside piece List.mem_cons_self).2
  inside other hother := ⟨List.rel_of_pairwise_cons h.increasing hother,
    (h.inside other (List.mem_cons_of_mem _ hother)).2⟩
  increasing := h.increasing.tail
  nested other hother := h.nested other (List.mem_cons_of_mem _ hother)

/-- What stands in front of the last piece of a row. -/
theorem init (h : Row first last (pieces ++ [piece])) : Row first piece.span.start pieces := by
  obtain ⟨hpieces, -, hbefore⟩ := List.pairwise_append.mp h.increasing
  have hmem : ∀ other ∈ pieces, other ∈ pieces ++ [piece] := fun _ => List.mem_append_left _
  exact {
    bounds := (h.inside piece (by simp)).1
    inside other hother :=
      ⟨(h.inside other (hmem other hother)).1, hbefore other hother piece List.mem_cons_self⟩
    increasing := hpieces
    nested other hother := h.nested other (hmem other hother) }

/-- In place of the last piece of a row there may be the last byte of what ends with it. -/
theorem cut {whole : Span} (h : Row first last (pieces ++ [.leaf span]))
    (hstop : whole.stop = span.stop) : Row first last (pieces ++ [.leaf whole.last]) := by
  have hspan := (h.nested (.leaf span) (by simp)).nonempty
  obtain ⟨-, hlast⟩ := h.inside (.leaf span) (by simp)
  simp only [leaf_span] at hspan hlast
  have hclosing : Row span.start last [.leaf whole.last] := by
    refine .leaf ?_ ?_ ?_ <;> simp only [Span.last] <;> omega
  exact h.init.append hclosing

end Row

end Outline

open Outline (leaf)

mutual

def Expr.layout : Expr → Outline
  | .literal span _ | .identifier span _ => .leaf span
  | .member span object property _ => ⟨span, object.layout :: property.layouts⟩
  | .array span elements => ⟨span, Element.layouts elements⟩
  | .object span entries => ⟨span, Entry.layouts entries⟩
  | .call span callee arguments =>
    ⟨span, callee.layout :: (Element.layouts arguments ++ [.leaf span.last])⟩
  | .unary span _ operand => ⟨span, [operand.layout]⟩
  | .binary span _ left right => ⟨span, [left.layout, right.layout]⟩
  | .conditional span test consequent alternate =>
    ⟨span, [test.layout, consequent.layout, alternate.layout]⟩
  | .assignment span _ target value => ⟨span, [target.layout, value.layout]⟩
  | .update span _ _ target => ⟨span, [target.layout]⟩

def Property.layouts : Property → List Outline
  | .named _ => []
  | .computed key => [key.layout]

def Element.layouts : List Element → List Outline
  | [] => []
  | .single value :: rest | .spread value :: rest => value.layout :: Element.layouts rest

def Entry.layouts : List Entry → List Outline
  | [] => []
  | .named _ value :: rest | .spread value :: rest => value.layout :: Entry.layouts rest
  | .computed key value :: rest => key.layout :: value.layout :: Entry.layouts rest

end

@[simp] theorem Expr.layout_span (e : Expr) : e.layout.span = e.span := by
  cases e <;> rfl

theorem Entry.layouts_cons (entry : Entry) (rest : List Entry) :
    Entry.layouts (entry :: rest) = Entry.layouts [entry] ++ Entry.layouts rest := by
  cases entry <;> rfl

theorem Property.layouts_spans (property : Property) :
    property.layouts.map Outline.span = property.outlines.map Outline.span := by
  cases property <;> simp [layouts, outlines]

theorem Element.layouts_spans (elements : List Element) :
    (Element.layouts elements).map Outline.span = (Element.outlines elements).map Outline.span := by
  induction elements with
  | nil => rfl
  | cons element rest ih => cases element <;> simp [Element.layouts, Element.outlines, ih]

theorem Entry.layouts_spans (entries : List Entry) :
    (Entry.layouts entries).map Outline.span = (Entry.outlines entries).map Outline.span := by
  induction entries with
  | nil => rfl
  | cons entry rest ih => cases entry <;> simp [Entry.layouts, Entry.outlines, ih]

-- ---------------------------------------------------------------------------
-- The outline of what has a nested layout
-- ---------------------------------------------------------------------------

mutual

theorem Expr.outline_nested : (e : Expr) → e.layout.Nested → e.outline.Nested
  | .literal .., h | .identifier .., h => h
  | .member _ base property _, h => by
    obtain ⟨hbase, hproperty⟩ := List.forall_mem_cons.mp h.parts
    refine h.replace (by simp [property.layouts_spans]) (List.forall_mem_cons.mpr ?_)
    exact ⟨base.outline_nested hbase, property.outlines_nested hproperty⟩
  | .array _ elements, h =>
    h.replace (by simp [Element.layouts_spans]) (Element.outlines_nested elements h.parts)
  | .object _ entries, h =>
    h.replace (by simp [Entry.layouts_spans]) (Entry.outlines_nested entries h.parts)
  | .call _ callee arguments, h => by
    obtain ⟨hcallee, hrest⟩ := List.forall_mem_cons.mp h.parts
    obtain ⟨harguments, -⟩ := List.forall_mem_append.mp hrest
    refine h.replace (by simp [Element.layouts_spans]) (List.forall_mem_cons.mpr ?_)
    exact ⟨callee.outline_nested hcallee, Element.outlines_nested arguments harguments⟩
  | .unary _ _ operand, h | .update _ _ _ operand, h => by
    refine h.replace (by simp) (List.forall_mem_singleton.mpr ?_)
    exact operand.outline_nested (List.forall_mem_singleton.mp h.parts)
  | .binary _ _ left right, h | .assignment _ _ left right, h => by
    obtain ⟨hleft, hright⟩ := List.forall_mem_cons.mp h.parts
    refine h.replace (by simp) (List.forall_mem_cons.mpr ⟨left.outline_nested hleft, ?_⟩)
    exact List.forall_mem_singleton.mpr
      (right.outline_nested (List.forall_mem_singleton.mp hright))
  | .conditional _ test consequent alternate, h => by
    obtain ⟨htest, hrest⟩ := List.forall_mem_cons.mp h.parts
    obtain ⟨hconsequent, halternate⟩ := List.forall_mem_cons.mp hrest
    refine h.replace (by simp) (List.forall_mem_cons.mpr ⟨test.outline_nested htest, ?_⟩)
    refine List.forall_mem_cons.mpr ⟨consequent.outline_nested hconsequent, ?_⟩
    exact List.forall_mem_singleton.mpr
      (alternate.outline_nested (List.forall_mem_singleton.mp halternate))

theorem Property.outlines_nested : (property : Property) →
    (∀ o ∈ property.layouts, o.Nested) → ∀ o ∈ property.outlines, o.Nested
  | .named _, _ => nofun
  | .computed key, h =>
    List.forall_mem_singleton.mpr (key.outline_nested (List.forall_mem_singleton.mp h))

theorem Element.outlines_nested : (elements : List Element) →
    (∀ o ∈ Element.layouts elements, o.Nested) → ∀ o ∈ Element.outlines elements, o.Nested
  | [], _ => nofun
  | .single value :: rest, h | .spread value :: rest, h => by
    obtain ⟨hvalue, hrest⟩ := List.forall_mem_cons.mp h
    exact List.forall_mem_cons.mpr
      ⟨value.outline_nested hvalue, Element.outlines_nested rest hrest⟩

theorem Entry.outlines_nested : (entries : List Entry) →
    (∀ o ∈ Entry.layouts entries, o.Nested) → ∀ o ∈ Entry.outlines entries, o.Nested
  | [], _ => nofun
  | .named _ value :: rest, h | .spread value :: rest, h => by
    obtain ⟨hvalue, hrest⟩ := List.forall_mem_cons.mp h
    exact List.forall_mem_cons.mpr ⟨value.outline_nested hvalue, Entry.outlines_nested rest hrest⟩
  | .computed key value :: rest, h => by
    obtain ⟨hkey, hboth⟩ := List.forall_mem_cons.mp h
    obtain ⟨hvalue, hrest⟩ := List.forall_mem_cons.mp hboth
    refine List.forall_mem_cons.mpr ⟨key.outline_nested hkey, List.forall_mem_cons.mpr ?_⟩
    exact ⟨value.outline_nested hvalue, Entry.outlines_nested rest hrest⟩

end

/-- An expression that stands in a row by its layout does so by its outline. -/
theorem Outline.Row.outline {first last : Nat} {e : Expr} (h : Row first last [e.layout]) :
    Row first last [e.outline] where
  bounds := h.bounds
  inside := by simpa using h.inside
  increasing := List.pairwise_singleton ..
  nested := List.forall_mem_singleton.mpr
    (e.outline_nested (List.forall_mem_singleton.mp h.nested))

end PromptTemplate
