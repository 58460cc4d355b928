import PromptTemplate.Proofs.Parser.Sound
import PromptTemplate.Proofs.Syntax.Outline
import PromptTemplate.Proofs.Token.Cover

/-!
# Parsers go forward

A parser takes tokens in the order of the source, so the pieces that it makes
of them stand in front of the tokens that are left. `Ordered before p after`
says that if the pieces `before` are made when `p` starts, then the pieces
`after` are when it is done, as a row from the same place.
-/

namespace PromptTemplate.Parser

open Outline (Row)

variable {α β : Type}

/-- The pieces stand in a row from `first` on, in front of the tokens of the stream. -/
def Behind (first : Nat) (pieces : List Outline) (s : TokenStream) : Prop :=
  ∃ last, Row first last pieces ∧ Token.Increasing last s.tokens

def Ordered (before : List Outline) (p : Parser α) (after : α → List Outline) : Prop :=
  ∀ first, Ensures (Behind first before) p fun a => Behind first (after a)

/-- The pieces are made, and `found` is the token in front of the stream. -/
def Facing (first : Nat) (pieces : List Outline) (found : Option Token) (s : TokenStream) : Prop :=
  Behind first pieces s ∧ s.tokens.head? = found

namespace Ordered

variable {before between : List Outline} {middle after : α → List Outline}

/-- Pieces from before the start stay where they are. -/
theorem frame {p : Parser α} (h : Ordered [] p after) (before : List Outline) :
    Ordered before p fun a => before ++ after a := by
  rintro first s a t ⟨start, hrow, htokens⟩ hrun
  obtain ⟨last, hmore, hleft⟩ := h start s a t ⟨start, .nil (Nat.le_refl _), htokens⟩ hrun
  exact ⟨last, hrow.append hmore, hleft⟩

theorem weaken {p : Parser α} (h : Ordered between p after)
    (himp : ∀ first last, Row first last before → Row first last between) :
    Ordered before p after :=
  fun first => (h first).mono (fun _ ⟨last, hrow, hleft⟩ => ⟨last, himp first last hrow, hleft⟩)
    fun _ _ => id

theorem pure {a : α} (h : ∀ first last, Row first last before → Row first last (after a)) :
    Ordered before (Pure.pure a) after :=
  fun first => .pure fun _ ⟨last, hrow, hleft⟩ => ⟨last, h first last hrow, hleft⟩

theorem seq {p : Parser α} {f : α → Parser β} {after : β → List Outline}
    (hp : Ordered before p middle) (hf : ∀ a, Ordered (middle a) (f a) after) :
    Ordered before (p >>= f) after :=
  fun first => .bind (hp first) fun a => hf a first

theorem bind {p : Parser α} {f : α → Parser β} {after : β → List Outline}
    (hp : Ordered [] p middle) (hf : ∀ a, Ordered (before ++ middle a) (f a) after) :
    Ordered before (p >>= f) after :=
  seq (hp.frame before) hf

/-- What is taken leaves no trace. -/
theorem skip {p : Parser α} {f : α → Parser β} {after : β → List Outline}
    (hp : Ordered [] p middle) (hf : ∀ a, Ordered before (f a) after) :
    Ordered before (p >>= f) after :=
  bind hp fun a => (hf a).weaken fun _ _ hrow => hrow.sublist (List.sublist_append_left ..)

theorem fail {cause : Cause} {span : Span} :
    Ordered before (Parser.fail cause span : Parser α) after :=
  fun _ => .fail

theorem failAtEnd {cause : Cause} : Ordered before (Parser.failAtEnd cause : Parser α) after :=
  fun _ => .failAtEnd

/-- Nothing comes after a parser that always fails. -/
theorem failed {p : Parser α} {f : α → Parser β} {after : β → List Outline}
    (hp : ∀ first, Ensures (Behind first before) p fun _ _ => False) :
    Ordered before (p >>= f) after :=
  fun first => .bind (hp first) fun _ _ _ _ h => h.elim

theorem ite {c : Prop} [Decidable c] {p q : Parser α} (hp : c → Ordered before p after)
    (hq : ¬ c → Ordered before q after) : Ordered before (if c then p else q) after :=
  fun first => .ite (fun h => hp h first) fun h => hq h first

-- ---------------------------------------------------------------------------
-- Tokens
-- ---------------------------------------------------------------------------

def pieces (found : Option Token) : List Outline := found.toList.map fun token => .leaf token.span

theorem peekAt {ahead : Nat} : Ordered before (Parser.peekAt ahead) fun _ => before :=
  fun _ => .peekAt

theorem peekKind : Ordered before Parser.peekKind fun _ => before :=
  seq peekAt fun _ => pure fun _ _ => id

theorem peek_bind {f : Option Token → Parser α}
    (hf : ∀ found first, Ensures (Facing first before found) (f found)
      fun a => Behind first (after a)) : Ordered before (Parser.peek >>= f) after :=
  fun first => .bind .peek fun found => hf found first

theorem facing {p : Parser α} {found : Option Token} {first : Nat} (h : Ordered before p after) :
    Ensures (Facing first before found) p fun a => Behind first (after a) :=
  (h first).mono (fun _ => And.left) fun _ _ => id

theorem behind_tail {first : Nat} {s t : TokenStream} (h : Behind first before s)
    (ht : t.tokens = s.tokens.tail) : Behind first (before ++ pieces s.tokens.head?) t := by
  obtain ⟨last, hrow, htokens⟩ := h
  rw [Behind, ht]
  cases hs : s.tokens with
  | nil => exact ⟨last, by simpa [pieces] using hrow, trivial⟩
  | cons token rest =>
    rw [hs] at htokens
    obtain ⟨hstart, htoken, hrest⟩ := htokens
    exact ⟨token.span.stop, hrow.append (.leaf hstart htoken (Nat.le_refl _)), hrest⟩

theorem take : Ordered [] Parser.take pieces := by
  intro first
  refine Ensures.take.mono (fun _ => id) ?_
  rintro _ t ⟨s, hs, rfl, ht⟩
  exact behind_tail hs ht

/-- The token that was looked at is the one that is taken. -/
theorem take_facing {f : Option Token → Parser α} {token : Token} {first : Nat}
    (hf : Ordered (before ++ [.leaf token.span]) (f (some token)) after) :
    Ensures (Facing first before (some token)) (Parser.take >>= f)
      fun a => Behind first (after a) := by
  refine .bind .take fun found => ?_
  rintro t a u ⟨s, ⟨hs, hfacing⟩, hfound, ht⟩ hrun
  have hbehind := behind_tail hs ht
  rw [hfacing] at hbehind
  obtain rfl : some token = found := hfacing.symm.trans hfound
  exact hf first t a u hbehind hrun

theorem takeRequired {expected : String} :
    Ordered [] (Parser.takeRequired expected) fun token => [.leaf token.span] := by
  refine seq take fun found => ?_
  cases found with
  | none => exact failAtEnd
  | some token => exact pure fun _ _ => id

theorem failExpecting {expected : String} :
    Ordered before (Parser.failExpecting expected : Parser α) after :=
  fun _ => .failExpecting

theorem takeIf {kind : TokenKind} : Ordered [] (Parser.takeIf kind) pieces := by
  refine seq peekAt fun found => ?_
  cases found with
  | none => exact pure fun _ _ => id
  | some token => exact ite (fun _ => take) fun _ => pure fun _ _ => id

theorem takeSymbol {symbol : Symbol} : Ordered [] (Parser.takeSymbol symbol) pieces := takeIf

theorem takeWord {word : String} : Ordered [] (Parser.takeWord word) fun _ => [] :=
  skip takeIf fun _ => pure fun _ _ => id

theorem expectSymbol {symbol : Symbol} :
    Ordered [] (Parser.expectSymbol symbol) fun token => [.leaf token.span] := by
  refine seq takeSymbol fun found => ?_
  cases found with
  | none => exact failExpecting
  | some token => exact pure fun _ _ => id

theorem expectClose : Ordered [] Parser.expectClose fun span => [.leaf span] :=
  seq takeRequired fun _ => ite (fun _ => pure fun _ _ => id) fun _ => fail

theorem name : Ordered [] Parser.name fun found => [.leaf found.2] := by
  refine seq take fun found => ?_
  split
  · exact pure fun _ _ => id
  · exact fail
  · exact failAtEnd

theorem budget_bind {f : Nat → Parser α} (hf : ∀ n, Ordered before (f n) after) :
    Ordered before (Parser.budget >>= f) after :=
  fun first s a t hs hrun => hf _ first s a t hs hrun

/-- What a parser makes of the tokens of a text is a row from its start. -/
theorem row_of_stream {p : Parser α} {s : TokenStream} {a : α} (h : Ordered [] p after)
    (htokens : Token.Increasing 0 s.tokens) (hrun : Prod.fst <$> p.run s = .ok a) :
    ∃ last, Row 0 last (after a) := by
  simp only [StateT.run] at hrun
  cases hparse : p s with
  | error error =>
    rw [hparse] at hrun
    cases hrun
  | ok found =>
    rw [hparse] at hrun
    obtain rfl : found.1 = a := Except.ok.inj hrun
    obtain ⟨last, hrow, -⟩ := h 0 _ _ _ ⟨0, .nil (Nat.le_refl 0), htokens⟩ hparse
    exact ⟨last, hrow⟩

end Ordered

end PromptTemplate.Parser
