import PromptTemplate.Proofs.Expr.Phrase

/-!
# The parts of an expression

An expression and all those inside it. Each of them was a phrase of its own
among the tokens of the whole one (`Phrase.parts`), but for the variable that an
entry of an object stands for by its name alone.
-/

namespace PromptTemplate

mutual

/-- The expressions inside. -/
def Expr.inner : Expr → List Expr
  | .literal .. | .identifier .. => []
  | .member _ base property _ => base :: base.inner ++ property.inner
  | .array _ elements => Element.innerAll elements
  | .object _ entries => Entry.innerAll entries
  | .call _ callee arguments => callee :: callee.inner ++ Element.innerAll arguments
  | .unary _ _ operand | .update _ _ _ operand => operand :: operand.inner
  | .binary _ _ left right | .assignment _ _ left right =>
    left :: left.inner ++ right :: right.inner
  | .conditional _ test consequent alternate =>
    test :: test.inner ++ consequent :: consequent.inner ++ alternate :: alternate.inner

def Property.inner : Property → List Expr
  | .named _ => []
  | .computed key => key :: key.inner

def Element.innerAll : List Element → List Expr
  | [] => []
  | .single value :: rest | .spread value :: rest => value :: value.inner ++ Element.innerAll rest

def Entry.innerAll : List Entry → List Expr
  | [] => []
  | .named _ value :: rest | .spread value :: rest => value :: value.inner ++ Entry.innerAll rest
  | .computed key value :: rest =>
    key :: key.inner ++ value :: value.inner ++ Entry.innerAll rest

end

/-- The expression itself and those inside. -/
def Expr.parts (e : Expr) : List Expr := e :: e.inner

theorem Element.innerAll_cons (element : Element) (rest : List Element) :
    Element.innerAll (element :: rest) = Element.innerAll [element] ++ Element.innerAll rest := by
  cases element <;> simp [Element.innerAll]

theorem Entry.innerAll_cons (entry : Entry) (rest : List Entry) :
    Entry.innerAll (entry :: rest) = Entry.innerAll [entry] ++ Entry.innerAll rest := by
  cases entry <;> simp [Entry.innerAll]

/-- The tokens are the expression, or it is the variable of this name in an object. -/
inductive Stands : List Token → Expr → Prop
  | phrase {level ts e} (h : Phrase level ts e) : Stands ts e
  | short {place name} : Stands [⟨.identifier name, place⟩] (.identifier place name)

/-- Among these tokens the expression stands. -/
def StandsAmong (ts : List Token) (e : Expr) : Prop := ∃ core, core <:+: ts ∧ Stands core e

namespace StandsAmong

variable {ts more before after : List Token} {e part : Expr}

theorem mono (h : StandsAmong ts part) (hts : ts <:+: more) : StandsAmong more part := by
  obtain ⟨core, hcore, hstands⟩ := h
  exact ⟨core, hcore.trans hts, hstands⟩

theorem left (h : StandsAmong ts part) : StandsAmong (ts ++ more) part :=
  h.mono (List.prefix_append ..).isInfix

theorem right (h : StandsAmong more part) : StandsAmong (ts ++ more) part :=
  h.mono (List.suffix_append ..).isInfix

theorem behind {token : Token} (h : StandsAmong ts part) : StandsAmong (token :: ts) part :=
  h.mono (List.suffix_cons ..).isInfix

end StandsAmong

theorem Phrase.parts_of_inner {level : Nat} {ts : List Token} {e : Expr} (h : Phrase level ts e)
    (hinner : ∀ part ∈ e.inner, StandsAmong ts part) : ∀ part ∈ e :: e.inner, StandsAmong ts part :=
  List.forall_mem_cons.2 ⟨⟨ts, List.infix_rfl, .phrase h⟩, hinner⟩

namespace Phrase

mutual

theorem inner : {level : Nat} → {ts : List Token} → {e : Expr} → Phrase level ts e →
    ∀ part ∈ e.inner, StandsAmong ts part
  | _, _, _, .loosen h => h.inner
  | _, _, _, .number | _, _, _, .string => nofun
  | _, _, _, .word _ => by
    unfold Expr.ofWord
    (repeat' split) <;> exact nofun
  | _, _, _, .parens h => fun part hpart => (h.inner part hpart).behind.left
  | _, _, _, .array h => fun part hpart => (h.inner part hpart).behind
  | _, _, _, .object h => fun part hpart => (h.inner part hpart).behind
  | _, _, _, .member h hkey => List.forall_mem_append.2
    ⟨fun part hpart => (h.parts_of_inner h.inner part hpart).left,
      fun part hpart => (hkey.inner part hpart).right⟩
  | _, _, _, .call h harguments => List.forall_mem_append.2
    ⟨fun part hpart => (h.parts_of_inner h.inner part hpart).left,
      fun part hpart => (harguments.inner part hpart).behind.right⟩
  | _, _, _, .updated h _ => fun part hpart => (h.parts_of_inner h.inner part hpart).left
  | _, _, _, .update _ h => fun part hpart => (h.parts_of_inner h.inner part hpart).behind
  | _, _, _, .unary _ h => fun part hpart => (h.parts_of_inner h.inner part hpart).behind
  | _, _, _, .power hleft hright => List.forall_mem_append.2
    ⟨fun part hpart => (hleft.parts_of_inner hleft.inner part hpart).left,
      fun part hpart => (hright.parts_of_inner hright.inner part hpart).behind.right⟩
  | _, _, _, .binary _ _ hleft hright => List.forall_mem_append.2
    ⟨fun part hpart => (hleft.parts_of_inner hleft.inner part hpart).left,
      fun part hpart => (hright.parts_of_inner hright.inner part hpart).behind.right⟩
  | _, _, _, .assignment hleft _ hright => List.forall_mem_append.2
    ⟨fun part hpart => (hleft.parts_of_inner hleft.inner part hpart).left,
      fun part hpart => (hright.parts_of_inner hright.inner part hpart).behind.right⟩
  | _, _, _, .conditional htest hyes hno => by
    refine List.forall_mem_append.2 ⟨List.forall_mem_append.2 ⟨fun part hpart => ?_,
      fun part hpart => ?_⟩, fun part hpart => ?_⟩
    · exact (htest.parts_of_inner htest.inner part hpart).left
    · exact (hyes.parts_of_inner hyes.inner part hpart).left.behind.right
    · exact (hno.parts_of_inner hno.inner part hpart).behind.right.behind.right

theorem Item.inner : {ts : List Token} → {element : Element} → Item ts element →
    ∀ part ∈ Element.innerAll [element], StandsAmong ts part
  | _, _, .single h => by
    rw [Element.innerAll, Element.innerAll, List.append_nil]
    exact h.parts_of_inner h.inner
  | _, _, .spread h => by
    rw [Element.innerAll, Element.innerAll, List.append_nil]
    exact fun part hpart => (h.parts_of_inner h.inner part hpart).behind

theorem Elements.inner : {close : Symbol} → {ts : List Token} → {elements : List Element} →
    {last : Span} → Elements close ts elements last →
    ∀ part ∈ Element.innerAll elements, StandsAmong ts part
  | _, _, _, _, .nil => nofun
  | _, _, _, _, .last h => fun part hpart => (h.inner part hpart).left
  | _, _, _, _, .cons h hmore => by
    rw [Element.innerAll_cons]
    exact List.forall_mem_append.2 ⟨fun part hpart => (h.inner part hpart).left,
      fun part hpart => (hmore.inner part hpart).behind.right⟩

theorem Pair.inner : {ts : List Token} → {entry : Entry} → Pair ts entry →
    ∀ part ∈ Entry.innerAll [entry], StandsAmong ts part
  | _, _, .short => List.forall_mem_singleton.2 ⟨_, List.infix_rfl, .short⟩
  | _, _, .word h | _, _, .string h => by
    rw [Entry.innerAll, Entry.innerAll, List.append_nil]
    exact fun part hpart => (h.parts_of_inner h.inner part hpart).behind.behind
  | _, _, .computed hkey h => by
    rw [Entry.innerAll, Entry.innerAll, List.append_nil]
    exact List.forall_mem_append.2
      ⟨fun part hpart => (hkey.parts_of_inner hkey.inner part hpart).left.behind,
        fun part hpart => (h.parts_of_inner h.inner part hpart).behind.behind.right.behind⟩
  | _, _, .spread h => by
    rw [Entry.innerAll, Entry.innerAll, List.append_nil]
    exact fun part hpart => (h.parts_of_inner h.inner part hpart).behind

theorem Entries.inner : {ts : List Token} → {entries : List Entry} → {last : Span} →
    Entries ts entries last → ∀ part ∈ Entry.innerAll entries, StandsAmong ts part
  | _, _, _, .nil => nofun
  | _, _, _, .last h => fun part hpart => (h.inner part hpart).left
  | _, _, _, .cons h hmore => by
    rw [Entry.innerAll_cons]
    exact List.forall_mem_append.2 ⟨fun part hpart => (h.inner part hpart).left,
      fun part hpart => (hmore.inner part hpart).behind.right⟩

theorem Key.inner : {optional : Bool} → {ts : List Token} → {property : Property} → {last : Span} →
    Key optional ts property last → ∀ part ∈ property.inner, StandsAmong ts part
  | _, _, _, _, .named | _, _, _, _, .optionalNamed => nofun
  | _, _, _, _, .computed h => fun part hpart => (h.parts_of_inner h.inner part hpart).behind.left
  | _, _, _, _, .optionalComputed h =>
    fun part hpart => (h.parts_of_inner h.inner part hpart).behind.behind.left

end

theorem parts {level : Nat} {ts : List Token} {e : Expr} (h : Phrase level ts e) :
    ∀ part ∈ e.parts, StandsAmong ts part :=
  h.parts_of_inner h.inner

end Phrase

end PromptTemplate
