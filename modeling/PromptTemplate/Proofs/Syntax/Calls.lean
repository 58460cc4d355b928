import PromptTemplate.Proofs.Syntax.Layout

/-!
# The calls in an expression

The call expressions in an expression by their spans, each one behind those
inside it. In an expression with a nested layout each of them ends before the
next (`Expr.callSpans_rising`).
-/

namespace PromptTemplate

open Outline (Row leaf)

mutual

def Expr.callSpans : Expr → List Span
  | .literal .. | .identifier .. => []
  | .member _ base property _ => base.callSpans ++ property.callSpans
  | .array _ elements => Element.callSpansAll elements
  | .object _ entries => Entry.callSpansAll entries
  | .call span callee arguments => callee.callSpans ++ (Element.callSpansAll arguments ++ [span])
  | .unary _ _ operand => operand.callSpans
  | .binary _ _ left right => left.callSpans ++ right.callSpans
  | .conditional _ test consequent alternate =>
    test.callSpans ++ (consequent.callSpans ++ alternate.callSpans)
  | .assignment _ _ target value => target.callSpans ++ value.callSpans
  | .update _ _ _ target => target.callSpans

def Property.callSpans : Property → List Span
  | .named _ => []
  | .computed key => key.callSpans

def Element.callSpansAll : List Element → List Span
  | [] => []
  | .single value :: rest | .spread value :: rest => value.callSpans ++ Element.callSpansAll rest

def Entry.callSpansAll : List Entry → List Span
  | [] => []
  | .named _ value :: rest | .spread value :: rest => value.callSpans ++ Entry.callSpansAll rest
  | .computed key value :: rest =>
    key.callSpans ++ (value.callSpans ++ Entry.callSpansAll rest)

end

-- ---------------------------------------------------------------------------
-- Spans with rising ends
-- ---------------------------------------------------------------------------

/-- The spans end behind `first`, up to `last`, each one before the next. -/
structure Rising (first last : Nat) (spans : List Span) : Prop where
  bounds : first ≤ last
  inside : ∀ span ∈ spans, first < span.stop ∧ span.stop ≤ last
  increasing : spans.Pairwise fun span later => span.stop < later.stop

namespace Rising

variable {first middle last : Nat} {spans more : List Span}

theorem nil (h : first ≤ last) : Rising first last [] := ⟨h, nofun, .nil⟩

theorem mono {earlier later : Nat} (h : Rising first last spans) (hfirst : earlier ≤ first)
    (hlast : last ≤ later) : Rising earlier later spans where
  bounds := Nat.le_trans hfirst (Nat.le_trans h.bounds hlast)
  inside span hspan := ⟨Nat.lt_of_le_of_lt hfirst (h.inside span hspan).1,
    Nat.le_trans (h.inside span hspan).2 hlast⟩
  increasing := h.increasing

theorem append (h : Rising first middle spans) (hmore : Rising middle last more) :
    Rising first last (spans ++ more) where
  bounds := Nat.le_trans h.bounds hmore.bounds
  inside := List.forall_mem_append.mpr
    ⟨(h.mono (Nat.le_refl _) hmore.bounds).inside, (hmore.mono h.bounds (Nat.le_refl _)).inside⟩
  increasing := List.pairwise_append.mpr ⟨h.increasing, hmore.increasing,
    fun span hspan later hlater =>
      Nat.lt_of_le_of_lt (h.inside span hspan).2 (hmore.inside later hlater).1⟩

end Rising

-- ---------------------------------------------------------------------------
-- Expressions
-- ---------------------------------------------------------------------------

/-- The calls in a form end inside it. -/
theorem Rising.within {first last : Nat} {span : Span} {parts : List Outline} {spans : List Span}
    (h : Row first last [⟨span, parts⟩])
    (hparts : Row span.start span.stop parts → Rising span.start span.stop spans) :
    Rising first last spans := by
  obtain ⟨hfirst, hlast⟩ := h.inside _ (List.mem_singleton_self _)
  exact (hparts (.parts (h.nested _ (List.mem_singleton_self _)))).mono hfirst hlast

mutual

theorem Expr.callSpans_rising {first last : Nat} : (e : Expr) → Row first last [e.layout] →
    Rising first last e.callSpans
  | .literal .., h | .identifier .., h => .nil h.bounds
  | .member _ base property _, h => .within h fun hparts =>
    (base.callSpans_rising hparts.head).append (property.callSpans_rising hparts.tail)
  | .array _ elements, h => .within h (Element.callSpansAll_rising elements)
  | .object _ entries, h => .within h (Entry.callSpansAll_rising entries)
  | .call span callee arguments, h => by
    refine .within h fun hparts => ?_
    have hrest := hparts.tail
    have hlast : span.stop - 1 < span.stop := (hrest.nested (leaf span.last) (by simp)).nonempty
    have hown : Rising (span.stop - 1) span.stop [span] :=
      ⟨Nat.le_of_lt hlast, List.forall_mem_singleton.mpr ⟨hlast, Nat.le_refl _⟩,
        List.pairwise_singleton ..⟩
    have harguments := (Element.callSpansAll_rising arguments hrest.init).append hown
    exact (callee.callSpans_rising hparts.head).append harguments
  | .unary _ _ operand, h | .update _ _ _ operand, h => .within h operand.callSpans_rising
  | .binary _ _ left right, h | .assignment _ _ left right, h => .within h fun hparts =>
    (left.callSpans_rising hparts.head).append (right.callSpans_rising hparts.tail)
  | .conditional _ test consequent alternate, h => by
    refine .within h fun hparts => ?_
    have hrest := hparts.tail
    have hbranches := (consequent.callSpans_rising hrest.head).append
      (alternate.callSpans_rising hrest.tail)
    exact (test.callSpans_rising hparts.head).append hbranches

theorem Property.callSpans_rising {first last : Nat} : (property : Property) →
    Row first last property.layouts → Rising first last property.callSpans
  | .named _, h => .nil h.bounds
  | .computed key, h => key.callSpans_rising h

theorem Element.callSpansAll_rising {first last : Nat} : (elements : List Element) →
    Row first last (Element.layouts elements) → Rising first last (Element.callSpansAll elements)
  | [], h => .nil h.bounds
  | .single value :: rest, h | .spread value :: rest, h =>
    (value.callSpans_rising h.head).append (Element.callSpansAll_rising rest h.tail)

theorem Entry.callSpansAll_rising {first last : Nat} : (entries : List Entry) →
    Row first last (Entry.layouts entries) → Rising first last (Entry.callSpansAll entries)
  | [], h => .nil h.bounds
  | .named _ value :: rest, h | .spread value :: rest, h =>
    (value.callSpans_rising h.head).append (Entry.callSpansAll_rising rest h.tail)
  | .computed key value :: rest, h => by
    have hrest := h.tail
    have hvalue := (value.callSpans_rising hrest.head).append
      (Entry.callSpansAll_rising rest hrest.tail)
    exact (key.callSpans_rising h.head).append hvalue

end

end PromptTemplate
