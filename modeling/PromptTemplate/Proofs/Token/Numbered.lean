import PromptTemplate.Proofs.Syntax.Items
import PromptTemplate.Proofs.Token.Words

/-!
# Numbers can be written

Every number of a well-formed tree has a literal, so there is a way to write
them all.
-/

namespace PromptTemplate

open Lexer

/-- Writes every number that has a literal by one of them. -/
def Literals (numeral : Float → List Char) : Prop :=
  ∀ x, (∃ cs, Denotes cs x) → Denotes (numeral x) x

theorem exists_literals : ∃ numeral, Literals numeral := by
  have hchoice : ∀ x, ∃ cs, (∃ cs, Denotes cs x) → Denotes cs x := by
    intro x
    by_cases h : ∃ cs, Denotes cs x
    · obtain ⟨cs, hcs⟩ := h
      exact ⟨cs, fun _ => hcs⟩
    · exact ⟨[], fun h' => absurd h' h⟩
  exact ⟨fun x => (hchoice x).choose, fun x => (hchoice x).choose_spec⟩

@[simp] theorem UnaryOp.number_ne_word (op : UnaryOp) (x : Float) :
    TokenKind.number x ≠ op.word := by
  cases op <;> nofun

@[simp] theorem BinaryOp.number_ne_word (op : BinaryOp) (x : Float) :
    TokenKind.number x ≠ op.word := by
  cases op <;> nofun

@[simp] theorem AssignOp.number_ne_word (op : AssignOp) (x : Float) :
    TokenKind.number x ≠ op.word := by
  cases op <;> nofun

@[simp] theorem UpdateOp.number_ne_word (op : UpdateOp) (x : Float) :
    TokenKind.number x ≠ op.word := by
  cases op <;> nofun

section
variable {numeral : Float → List Char}

@[simp] theorem numbered_nil : Numbered numeral [] := nofun

theorem Literal.numbered (hnumeral : Literals numeral) {span : Span} {value : Literal}
    (h : (Expr.literal span value).WellFormed) : Numbered numeral [value.word] := by
  intro x hx
  cases value with
  | number y =>
    obtain rfl : x = y := by simpa [Literal.word] using hx
    exact hnumeral x h
  | bool b => cases b <;> simp [Literal.word] at hx
  | _ => simp [Literal.word] at hx

mutual

theorem Expr.numbered (hnumeral : Literals numeral) (inside : Bool) : ∀ e : Expr, e.WellFormed →
    Numbered numeral (e.words inside)
  | .literal _ value, h => Literal.numbered hnumeral h
  | .identifier _ name, _ => by simp [Expr.words]
  | .member _ object property optional, h => by
    simpa [Expr.words] using
      ⟨object.numbered hnumeral true h.1, property.numbered hnumeral optional h.2⟩
  | .array _ elements, h => by
    simpa [Expr.words] using Element.numbered hnumeral [] numbered_nil elements h
  | .object _ entries, h => by
    simpa [Expr.words] using Entry.numbered hnumeral [] numbered_nil entries h
  | .call _ callee arguments, h => by
    simpa [Expr.words] using
      ⟨callee.numbered hnumeral true h.1, Element.numbered hnumeral [] numbered_nil arguments h.2⟩
  | .unary _ op operand, h => by simpa [Expr.words] using operand.numbered hnumeral true h
  | .binary _ op left right, h => by
    simpa [Expr.words] using ⟨left.numbered hnumeral true h.1, right.numbered hnumeral true h.2⟩
  | .conditional _ test consequent alternate, h => by
    simpa [Expr.words] using ⟨test.numbered hnumeral true h.1,
      consequent.numbered hnumeral true h.2.1, alternate.numbered hnumeral true h.2.2⟩
  | .assignment _ op target value, h => by
    simpa [Expr.words] using ⟨target.numbered hnumeral true h.1, value.numbered hnumeral true h.2⟩
  | .update _ op .before target, h => by simpa [Expr.words] using target.numbered hnumeral true h
  | .update _ op .after target, h => by simpa [Expr.words] using target.numbered hnumeral true h

theorem Property.numbered (hnumeral : Literals numeral) (optional : Bool) :
    ∀ p : Property, p.WellFormed → Numbered numeral (p.words optional)
  | .named name, _ => by simp [Property.words]
  | .computed key, h => by
    cases optional <;> simpa [Property.words] using key.numbered hnumeral true h

theorem Element.numbered (hnumeral : Literals numeral) (before : List TokenKind)
    (hbefore : Numbered numeral before) : ∀ elements : List Element, Element.AllWellFormed elements →
      Numbered numeral (Element.words before elements)
  | [], _ => numbered_nil
  | .single value :: rest, h => by
    have hrest := Element.numbered hnumeral [.symbol .comma] (by simp) rest h.2
    simpa [Element.words] using ⟨hbefore, value.numbered hnumeral true h.1, hrest⟩
  | .spread value :: rest, h => by
    have hrest := Element.numbered hnumeral [.symbol .comma] (by simp) rest h.2
    simpa [Element.words] using ⟨hbefore, value.numbered hnumeral true h.1, hrest⟩

theorem Entry.numbered (hnumeral : Literals numeral) (before : List TokenKind)
    (hbefore : Numbered numeral before) : ∀ entries : List Entry, Entry.AllWellFormed entries →
      Numbered numeral (Entry.words before entries)
  | [], _ => numbered_nil
  | .named key value :: rest, h => by
    have hrest := Entry.numbered hnumeral [.symbol .comma] (by simp) rest h.2
    by_cases hnamed : value.isNamed key
    · simpa [Entry.words, hnamed] using ⟨hbefore, hrest⟩
    · have hvalue := h.1
      rw [if_neg hnamed] at hvalue
      simpa [Entry.words, hnamed] using ⟨hbefore, value.numbered hnumeral true hvalue, hrest⟩
  | .computed key value :: rest, h => by
    have hrest := Entry.numbered hnumeral [.symbol .comma] (by simp) rest h.2.2
    simpa [Entry.words] using
      ⟨hbefore, key.numbered hnumeral true h.1, value.numbered hnumeral true h.2.1, hrest⟩
  | .spread value :: rest, h => by
    have hrest := Entry.numbered hnumeral [.symbol .comma] (by simp) rest h.2
    simpa [Entry.words] using ⟨hbefore, value.numbered hnumeral true h.1, hrest⟩

end

mutual

theorem Pattern.numbered : ∀ p : Pattern, Numbered numeral p.words
  | .ident name => by simp [Pattern.words]
  | .object entries => by
    simpa [Pattern.words] using Pattern.entryWords_numbered [] numbered_nil entries
  | .array items => by
    simpa [Pattern.words] using Pattern.itemWords_numbered [] numbered_nil items

theorem Pattern.entryWords_numbered (before : List TokenKind) (hbefore : Numbered numeral before) :
    ∀ entries, Numbered numeral (Pattern.entryWords before entries)
  | [] => numbered_nil
  | (key, p) :: rest => by
    have hrest := Pattern.entryWords_numbered [.symbol .comma] (by simp) rest
    simpa [Pattern.entryWords] using ⟨hbefore, p.numbered, hrest⟩

theorem Pattern.itemWords_numbered (before : List TokenKind) (hbefore : Numbered numeral before) :
    ∀ items, Numbered numeral (Pattern.itemWords before items)
  | [] => numbered_nil
  | p :: rest => by
    have hrest := Pattern.itemWords_numbered [.symbol .comma] (by simp) rest
    simpa [Pattern.itemWords] using ⟨hbefore, p.numbered, hrest⟩

end

theorem Tag.Allowed.numbered (hnumeral : Literals numeral) {name : String}
    {attributes : List Attribute} (h : Tag.Allowed name attributes) :
    Numbered numeral (attributes.flatMap Attribute.words) := by
  intro x hx
  obtain ⟨a, ha, hx⟩ := List.mem_flatMap.mp hx
  have hvalue := (h.each a ha).2
  rw [Attribute.words] at hx
  cases hkind : a.value with
  | flag | literal => simp [hkind, AttributeValue.words] at hx
  | expression value =>
    rw [hkind] at hvalue hx
    exact value.numbered hnumeral false hvalue x (by simpa [AttributeValue.words] using hx)

theorem Item.numbered (hnumeral : Literals numeral) {item : Item} (h : item.WellFormed) :
    Numbered numeral item.words := by
  cases item with
  | mustache value => simpa [Item.words] using value.numbered hnumeral false h
  | ifOpen condition | elseIf condition =>
    simpa [Item.words] using condition.numbered hnumeral false h
  | eachOpen iterable item index =>
    have hiterable := iterable.numbered hnumeral false h.1
    cases index <;> simpa [Item.words, Ident.words] using ⟨hiterable, item.numbered⟩
  | tagOpen name attributes | tagSelf name attributes =>
    simpa [Item.words] using Tag.Allowed.numbered hnumeral h
  | _ => simp [Item.words]

end

end PromptTemplate
