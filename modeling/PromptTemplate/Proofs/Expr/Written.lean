import PromptTemplate.Proofs.Token.Words

/-!
# The words of trees as text

The lexer reads back the words of every well-formed expression and pattern.
-/

namespace PromptTemplate

open Lexer

variable {numeral : Float → List Char}

theorem isWord_of {first : Char} {rest : List Char} {name : String} (h : name.toList = first :: rest)
    (hword : Text.isIdentStart first && rest.all Text.isIdentPart) : IsWord name := by
  rw [Bool.and_eq_true, List.all_eq_true] at hword
  exact ⟨first, rest, h, hword.1, hword.2⟩

theorem plain_symbol {s : Symbol} (hopen : s ≠ .braceOpen) (hclose : s ≠ .braceClose) :
    Plain numeral (.symbol s) :=
  ⟨hopen, hclose⟩

theorem UnaryOp.plain (op : UnaryOp) : Plain numeral op.word := by
  cases op with
  | typeOf => exact isWord_of rfl (by decide)
  | _ => exact plain_symbol (by decide) (by decide)

theorem BinaryOp.plain (op : BinaryOp) : Plain numeral op.word := by
  cases op with
  | isIn | instanceOf => exact isWord_of rfl (by decide)
  | _ => exact plain_symbol (by decide) (by decide)

theorem AssignOp.plain (op : AssignOp) : Plain numeral op.word := by
  cases op <;> exact plain_symbol (by decide) (by decide)

theorem UpdateOp.plain (op : UpdateOp) : Plain numeral op.word := by
  cases op <;> exact plain_symbol (by decide) (by decide)

theorem Literal.plain {value : Literal} (h : Numbered numeral [value.word]) :
    Plain numeral value.word := by
  cases value with
  | number x => exact h x (by simp [Literal.word])
  | string s => trivial
  | null => exact isWord_of rfl (by decide)
  | bool b => cases b <;> exact isWord_of rfl (by decide)

theorem written_symbol {words : List TokenKind} (s : Symbol) (h' : Written numeral words)
    (h : s ≠ .braceOpen ∧ s ≠ .braceClose) : Written numeral (.symbol s :: words) := .cons h h'

mutual

theorem Expr.written (inside : Bool) : ∀ e : Expr, e.WellFormed →
    Numbered numeral (e.words inside) → Written numeral (e.words inside)
  | .literal _ value, _, hn => .single (Literal.plain hn)
  | .identifier _ name, h, _ => .single h.1
  | .member _ object property optional, h, hn => by
    simp only [Expr.words, numbered_wrap, numbered_append] at hn ⊢
    exact ((object.written true h.1 hn.1).append (property.written optional h.2 hn.2)).wrap inside
  | .array _ elements, h, hn => by
    simp only [Expr.words, numbered_wrap, numbered_append, numbered_cons] at hn ⊢
    have helements := Element.written [] .nil elements h hn.1.2
    exact (written_symbol .bracketOpen (helements.append (.symbol .bracketClose (by decide)))
      (by decide)).wrap inside
  | .object _ entries, h, hn => by
    simp only [Expr.words, numbered_wrap, numbered_append, numbered_cons] at hn ⊢
    exact (Entry.written [] .nil entries h hn.1.2).braces.wrap inside
  | .call _ callee arguments, h, hn => by
    simp only [Expr.words, numbered_wrap, numbered_append, numbered_cons] at hn ⊢
    have harguments := Element.written [] .nil arguments h.2 hn.1.2.2
    have hcall := written_symbol .parenOpen harguments (by decide)
    exact (((callee.written true h.1 hn.1.1).append hcall).append
      (.symbol .parenClose (by decide))).wrap inside
  | .unary _ op operand, h, hn => by
    simp only [Expr.words, numbered_wrap, numbered_cons] at hn ⊢
    exact (Written.cons op.plain (operand.written true h hn.2)).wrap inside
  | .binary _ op left right, h, hn => by
    simp only [Expr.words, numbered_wrap, numbered_append, numbered_cons] at hn ⊢
    exact ((left.written true h.1 hn.1).append
      (.cons op.plain (right.written true h.2 hn.2.2))).wrap inside
  | .conditional _ test consequent alternate, h, hn => by
    simp only [Expr.words, numbered_wrap, numbered_append, numbered_cons] at hn ⊢
    have hyes := written_symbol .question (consequent.written true h.2.1 hn.1.2.2) (by decide)
    have hno := written_symbol .colon (alternate.written true h.2.2 hn.2.2) (by decide)
    exact (((test.written true h.1 hn.1.1).append hyes).append hno).wrap inside
  | .assignment _ op target value, h, hn => by
    simp only [Expr.words, numbered_wrap, numbered_append, numbered_cons] at hn ⊢
    exact ((target.written true h.1 hn.1).append
      (.cons op.plain (value.written true h.2 hn.2.2))).wrap inside
  | .update _ op .before target, h, hn => by
    simp only [Expr.words, numbered_wrap, numbered_cons] at hn ⊢
    exact (Written.cons op.plain (target.written true h hn.2)).wrap inside
  | .update _ op .after target, h, hn => by
    simp only [Expr.words, numbered_wrap, numbered_append] at hn ⊢
    exact ((target.written true h hn.1).append (.single op.plain)).wrap inside

theorem Property.written (optional : Bool) : ∀ p : Property, p.WellFormed →
    Numbered numeral (p.words optional) → Written numeral (p.words optional)
  | .named name, h, _ => by
    cases optional <;> exact written_symbol _ (.single h) (by decide)
  | .computed key, h, hn => by
    have hkey : Numbered numeral (key.words true) := by
      cases optional <;> simp [Property.words] at hn <;> exact hn.1
    have hbracket := written_symbol .bracketOpen ((key.written true h hkey).append
      (.symbol .bracketClose (by decide))) (by decide)
    cases optional with
    | false => exact hbracket
    | true => exact written_symbol .optionalDot hbracket (by decide)

theorem Element.written (before : List TokenKind) (hbefore : Written numeral before) :
    ∀ elements : List Element, Element.AllWellFormed elements →
      Numbered numeral (Element.words before elements) →
        Written numeral (Element.words before elements)
  | [], _, _ => .nil
  | .single value :: rest, h, hn => by
    simp only [Element.words, numbered_append] at hn ⊢
    have hrest := Element.written [.symbol .comma] (.symbol .comma (by decide)) rest h.2 hn.2
    exact (hbefore.append (value.written true h.1 hn.1.2)).append hrest
  | .spread value :: rest, h, hn => by
    simp only [Element.words, numbered_append, numbered_cons] at hn ⊢
    have hrest := Element.written [.symbol .comma] (.symbol .comma (by decide)) rest h.2 hn.2
    have hvalue := written_symbol .ellipsis (value.written true h.1 hn.1.2.2) (by decide)
    exact (hbefore.append hvalue).append hrest

theorem Entry.written (before : List TokenKind) (hbefore : Written numeral before) :
    ∀ entries : List Entry, Entry.AllWellFormed entries →
      Numbered numeral (Entry.words before entries) →
        Written numeral (Entry.words before entries)
  | [], _, _ => .nil
  | .named key value :: rest, h, hn => by
    simp only [Entry.words, numbered_append] at hn ⊢
    have hrest := Entry.written [.symbol .comma] (.symbol .comma (by decide)) rest h.2 hn.2
    refine (hbefore.append ?_).append hrest
    by_cases hnamed : value.isNamed key
    · have hkey := h.1
      rw [if_pos hnamed] at hkey ⊢
      exact .single hkey
    · have hvalue := h.1
      have hnumbers := hn.1.2
      rw [if_neg hnamed] at hvalue hnumbers ⊢
      simp only [numbered_cons] at hnumbers
      exact .cons trivial (written_symbol .colon (value.written true hvalue hnumbers.2.2) (by decide))
  | .computed key value :: rest, h, hn => by
    simp only [Entry.words, numbered_append, numbered_cons] at hn ⊢
    have hrest := Entry.written [.symbol .comma] (.symbol .comma (by decide)) rest h.2.2 hn.2
    have hvalue := written_symbol .bracketClose (written_symbol .colon
      (value.written true h.2.1 hn.1.2.2.2) (by decide)) (by decide)
    have hkey := written_symbol .bracketOpen (key.written true h.1 hn.1.1.2.2) (by decide)
    exact ((hbefore.append hkey).append hvalue).append hrest
  | .spread value :: rest, h, hn => by
    simp only [Entry.words, numbered_append, numbered_cons] at hn ⊢
    have hrest := Entry.written [.symbol .comma] (.symbol .comma (by decide)) rest h.2 hn.2
    have hvalue := written_symbol .ellipsis (value.written true h.1 hn.1.2.2) (by decide)
    exact (hbefore.append hvalue).append hrest

end

mutual

theorem Pattern.written : ∀ p : Pattern, p.WellFormed → Written numeral p.words
  | .ident name, h => .single h
  | .object entries, h => (Pattern.entries_written [] .nil entries h).braces
  | .array items, h =>
    written_symbol .bracketOpen ((Pattern.items_written [] .nil items h).append
      (.symbol .bracketClose (by decide))) (by decide)

theorem Pattern.entries_written (before : List TokenKind) (hbefore : Written numeral before) :
    ∀ entries : List (Ident × Pattern), Pattern.EntriesWellFormed entries →
      Written numeral (Pattern.entryWords before entries)
  | [], _ => .nil
  | (key, p) :: rest, h => by
    have hrest := Pattern.entries_written [.symbol .comma] (.symbol .comma (by decide)) rest h.2.2
    have hp := written_symbol .colon (p.written h.2.1) (by decide)
    have hkey : Plain numeral (.identifier key.name) := h.1
    exact (hbefore.append (.cons hkey hp)).append hrest

theorem Pattern.items_written (before : List TokenKind) (hbefore : Written numeral before) :
    ∀ items : List Pattern, Pattern.ItemsWellFormed items →
      Written numeral (Pattern.itemWords before items)
  | [], _ => .nil
  | p :: rest, h => by
    have hrest := Pattern.items_written [.symbol .comma] (.symbol .comma (by decide)) rest h.2
    exact (hbefore.append (p.written h.1)).append hrest

end

end PromptTemplate
