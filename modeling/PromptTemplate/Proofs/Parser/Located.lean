import PromptTemplate.Parser
import PromptTemplate.Proofs.Parser.Reads
import PromptTemplate.Proofs.Token.Placed

/-!
# Where parsers fail

A parser fails at a token, or where the stream ends, and gives what it makes
the spans of tokens and their joins. `Located P p Q` says that of `p` for any
property `P` of spans: it fails at a span with `P`, or gives a value with `Q`
and leaves a stream whose spans have `P`, if those it started from have.
-/

namespace PromptTemplate.Parser

variable {α β : Type} {P : Span → Prop}

def Located (P : Span → Prop) (p : Parser α) (Q : α → Prop) : Prop :=
  ∀ s : TokenStream, s.Spanned P → match p s with
    | .ok (a, t) => t.Spanned P ∧ Q a
    | .error error => P error.location

namespace Located

variable {Q R : α → Prop}

theorem pure {a : α} (h : Q a) : Located P (Pure.pure a) Q := fun _ hs => ⟨hs, h⟩

theorem bind {p : Parser α} {f : α → Parser β} {R : β → Prop} (hp : Located P p Q)
    (hf : ∀ a, Q a → Located P (f a) R) : Located P (p >>= f) R := by
  intro s hs
  have hfirst := hp s hs
  rw [run_bind]
  cases hrun : p s with
  | error error =>
    rw [hrun] at hfirst
    exact hfirst
  | ok found =>
    rw [hrun] at hfirst
    exact hf found.1 hfirst.2 found.2 hfirst.1

theorem fail {cause : Cause} {span : Span} (h : P span) :
    Located P (Parser.fail cause span : Parser α) Q := fun _ _ => h

theorem failAtEnd {cause : Cause} : Located P (Parser.failAtEnd cause : Parser α) Q := by
  rintro ⟨tokens, error | position⟩ hs
  · exact hs.error error rfl
  · exact hs.finish position rfl

theorem ite {c : Prop} [Decidable c] {p q : Parser α} (hp : c → Located P p Q)
    (hq : ¬ c → Located P q Q) : Located P (if c then p else q) Q := by
  by_cases h : c
  · rw [if_pos h]; exact hp h
  · rw [if_neg h]; exact hq h

theorem peekAt {ahead : Nat} :
    Located P (Parser.peekAt ahead) fun found => ∀ token ∈ found, P token.span := by
  rintro ⟨tokens, stop⟩ hs
  simp only [Parser.peekAt]
  cases htoken : tokens[ahead]? with
  | some token =>
    refine ⟨hs, ?_⟩
    rintro _ ⟨⟩
    exact hs.tokens token (List.mem_of_getElem? htoken)
  | none =>
    cases stop with
    | error error => exact hs.error error rfl
    | ok position => exact ⟨hs, nofun⟩

theorem peek : Located P Parser.peek fun found => ∀ token ∈ found, P token.span := peekAt

theorem peekKind : Located P Parser.peekKind fun _ => True :=
  bind peek fun _ _ => pure trivial

theorem take : Located P Parser.take fun found => ∀ token ∈ found, P token.span := by
  refine bind peek fun found hfound => ?_
  intro s hs
  exact ⟨⟨fun token htoken => hs.tokens token (List.mem_of_mem_tail htoken), hs.finish, hs.error⟩,
    hfound⟩

theorem takeRequired {expected : String} :
    Located P (Parser.takeRequired expected) fun token => P token.span := by
  refine bind take fun found hfound => ?_
  cases found with
  | none => exact failAtEnd
  | some token => exact pure (hfound token rfl)

theorem failExpecting {expected : String} :
    Located P (Parser.failExpecting expected : Parser α) Q := by
  refine bind peek fun found hfound => ?_
  cases found with
  | none => exact failAtEnd
  | some token => exact fail (hfound token rfl)

theorem takeIf {kind : TokenKind} :
    Located P (Parser.takeIf kind) fun found => ∀ token ∈ found, P token.span := by
  refine bind peek fun found hfound => ?_
  cases found with
  | none => exact pure nofun
  | some token => exact ite (fun _ => take) fun _ => pure nofun

theorem takeSymbol {symbol : Symbol} :
    Located P (Parser.takeSymbol symbol) fun found => ∀ token ∈ found, P token.span := takeIf

theorem takeWord {word : String} : Located P (Parser.takeWord word) fun _ => True :=
  bind takeIf fun _ _ => pure trivial

theorem expectSymbol {symbol : Symbol} :
    Located P (Parser.expectSymbol symbol) fun token => P token.span := by
  refine bind takeSymbol fun found hfound => ?_
  cases found with
  | none => exact failExpecting
  | some token => exact pure (hfound token rfl)

theorem expectClose : Located P Parser.expectClose P :=
  bind takeRequired fun _ htoken => ite (fun _ => pure htoken) fun _ => fail htoken

theorem name : Located P Parser.name fun found => P found.2 := by
  refine bind take fun found hfound => ?_
  split
  · exact pure (hfound _ rfl)
  · exact fail (hfound _ rfl)
  · exact failAtEnd

theorem budget_bind {f : Nat → Parser α} (hf : ∀ n, Located P (f n) Q) :
    Located P (Parser.budget >>= f) Q :=
  fun s hs => hf _ s hs

end Located

end PromptTemplate.Parser
