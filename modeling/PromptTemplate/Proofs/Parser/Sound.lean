import PromptTemplate.Parser
import PromptTemplate.Proofs.Parser.Reads
import PromptTemplate.Proofs.Syntax.Items

/-!
# What parsers make of good tokens

`Keeps P p Q` says that `p`, if it gives a value, gives one with `Q`, and that
streams keep `P`. A stream is good if its tokens are what a lexer can make:
identifiers are words, numbers have literals, and no text follows another one.
`Sound p Q` says that good streams stay good.
-/

namespace PromptTemplate

def TokenKind.isText : TokenKind → Bool
  | .text _ => true
  | _ => false

/-- What the lexer makes of a text without an opening section. -/
def TokenKind.Lexed : TokenKind → Prop
  | .text value => value ≠ ""
  | .config _ => False
  | .tagOpen name => IsTagName name
  | .attributeName name => IsAttributeName name
  | .attributeValue value => '"' ∉ value.toList ∨ '\'' ∉ value.toList
  | .identifier name => IsWord name
  | .number x => ∃ cs, Denotes cs x
  | _ => True

namespace TokenStream

def GoodTokens : List Token → Prop
  | [] => True
  | token :: rest => token.kind.Lexed ∧
      (token.kind.isText → ∀ second ∈ rest.head?, second.kind.isText = false) ∧ GoodTokens rest

def Good (s : TokenStream) : Prop := GoodTokens s.tokens

end TokenStream

namespace Parser

open TokenStream

variable {α β : Type}

/-- From a stream with `P`, if there is a value at all, it and the stream left have `Q`. -/
def Ensures (P : TokenStream → Prop) (p : Parser α) (Q : α → TokenStream → Prop) : Prop :=
  ∀ s a t, P s → p s = .ok (a, t) → Q a t

namespace Ensures

variable {P P' : TokenStream → Prop} {Q Q' : α → TokenStream → Prop}

theorem mono {p : Parser α} (h : Ensures P' p Q') (hbefore : ∀ s, P s → P' s)
    (hafter : ∀ a t, Q' a t → Q a t) : Ensures P p Q :=
  fun s a t hs hrun => hafter a t (h s a t (hbefore s hs) hrun)

theorem pure {a : α} (h : ∀ s, P s → Q a s) : Ensures P (Pure.pure a) Q := by
  rintro s _ _ hs ⟨⟩
  exact h s hs

theorem bind {p : Parser α} {f : α → Parser β} {R : β → TokenStream → Prop} (hp : Ensures P p Q)
    (hf : ∀ a, Ensures (Q a) (f a) R) : Ensures P (p >>= f) R := by
  intro s b u hs hrun
  rw [run_bind] at hrun
  cases hfirst : p s with
  | error error =>
    rw [hfirst] at hrun
    cases hrun
  | ok found =>
    rw [hfirst] at hrun
    exact hf found.1 found.2 b u (hp s found.1 found.2 hs hfirst) hrun

/-- What is known of the value alone is kept aside. -/
theorem step {p : Parser α} {f : α → Parser β} {Q : α → Prop} {R : β → TokenStream → Prop}
    (hp : Ensures P p fun a t => P' t ∧ Q a) (hf : ∀ a, Q a → Ensures P' (f a) R) :
    Ensures P (p >>= f) R :=
  bind hp fun a s b t hs => hf a hs.2 s b t hs.1

theorem fail {cause : Cause} {span : Span} : Ensures P (Parser.fail cause span : Parser α) Q :=
  fun _ _ _ _ hrun => nomatch hrun

theorem failAtEnd {cause : Cause} : Ensures P (Parser.failAtEnd cause : Parser α) Q := by
  intro s a t _ hrun
  simp only [Parser.failAtEnd] at hrun
  split at hrun <;> cases hrun

theorem ite {c : Prop} [Decidable c] {p q : Parser α} (hp : c → Ensures P p Q)
    (hq : ¬ c → Ensures P q Q) : Ensures P (if c then p else q) Q := by
  by_cases h : c
  · rw [if_pos h]; exact hp h
  · rw [if_neg h]; exact hq h

/-- A look at the next token leaves the stream as it is. -/
theorem peek : Ensures P Parser.peek fun found t => P t ∧ t.tokens.head? = found := by
  rintro ⟨tokens, stop⟩ found t hs hrun
  cases tokens with
  | nil =>
    simp only [Parser.peek, peekAt, List.getElem?_nil] at hrun
    split at hrun
    · cases hrun
    · cases hrun
      exact ⟨hs, rfl⟩
  | cons token tokens =>
    cases hrun
    exact ⟨hs, rfl⟩

theorem failExpecting {expected : String} :
    Ensures P (Parser.failExpecting expected : Parser α) Q := by
  refine bind peek fun found => ?_
  cases found with
  | none => exact failAtEnd
  | some token => exact fail

theorem peekAt {ahead : Nat} : Ensures P (Parser.peekAt ahead) fun _ t => P t := by
  intro s found t hs hrun
  simp only [Parser.peekAt] at hrun
  split at hrun
  · cases hrun
    exact hs
  · split at hrun
    · cases hrun
    · cases hrun
      exact hs

/-- Taking a token goes on to the tokens after it. -/
theorem take : Ensures P Parser.take fun found t =>
    ∃ s, P s ∧ s.tokens.head? = found ∧ t.tokens = s.tokens.tail := by
  rw [Parser.take]
  refine bind peek fun found => ?_
  rintro s _ _ ⟨hs, hfound⟩ ⟨⟩
  exact ⟨s, hs, hfound, rfl⟩

end Ensures

/-- `p` keeps `P` of the stream, and its value, if there is one, has `Q`. -/
def Keeps (P : TokenStream → Prop) (p : Parser α) (Q : α → Prop) : Prop :=
  Ensures P p fun a t => P t ∧ Q a

/-- A token that is taken has `T`, and the stream keeps `P` without it. -/
def Kept (P : TokenStream → Prop) (T : Token → Prop) : Prop :=
  ∀ {token tokens stop}, P ⟨token :: tokens, stop⟩ → P ⟨tokens, stop⟩ ∧ T token

namespace Keeps

variable {P : TokenStream → Prop} {T : Token → Prop} {Q R : α → Prop}

theorem mono {p : Parser α} (h : Keeps P p R) (himp : ∀ a, R a → Q a) : Keeps P p Q :=
  Ensures.mono h (fun _ => id) fun a _ ha => ⟨ha.1, himp a ha.2⟩

theorem pure {a : α} (h : Q a) : Keeps P (Pure.pure a) Q := Ensures.pure fun _ hs => ⟨hs, h⟩

theorem bind {p : Parser α} {f : α → Parser β} {R : β → Prop} (hp : Keeps P p Q)
    (hf : ∀ a, Q a → Keeps P (f a) R) : Keeps P (p >>= f) R :=
  Ensures.step hp hf

theorem fail {cause : Cause} {span : Span} : Keeps P (Parser.fail cause span : Parser α) Q :=
  Ensures.fail

theorem failAtEnd {cause : Cause} : Keeps P (Parser.failAtEnd cause : Parser α) Q :=
  Ensures.failAtEnd

theorem failExpecting {expected : String} : Keeps P (Parser.failExpecting expected : Parser α) Q :=
  Ensures.failExpecting

theorem ite {c : Prop} [Decidable c] {p q : Parser α} (hp : c → Keeps P p Q)
    (hq : ¬ c → Keeps P q Q) : Keeps P (if c then p else q) Q :=
  Ensures.ite hp hq

theorem peek : Keeps P Parser.peek fun _ => True :=
  Ensures.peek.mono (fun _ => id) fun _ _ h => ⟨h.1, trivial⟩

theorem peekKind : Keeps P Parser.peekKind fun _ => True :=
  bind peek fun _ _ => pure trivial

theorem budget_bind {f : Nat → Parser α} (hf : ∀ n, Keeps P (f n) Q) :
    Keeps P (Parser.budget >>= f) Q :=
  fun s a t hs hrun => hf _ s a t hs hrun

section
variable (h : Kept P T)
include h

theorem take : Keeps P Parser.take fun found => ∀ token ∈ found, T token := by
  rintro ⟨tokens, stop⟩ found t hs hrun
  cases tokens with
  | nil =>
    cases stop with
    | error e => cases hrun
    | ok p =>
      cases hrun
      exact ⟨hs, nofun⟩
  | cons token tokens =>
    cases hrun
    obtain ⟨hrest, htoken⟩ := h hs
    refine ⟨hrest, ?_⟩
    rintro _ ⟨⟩
    exact htoken

theorem takeRequired {expected : String} : Keeps P (Parser.takeRequired expected) T := by
  refine bind (take h) fun found hfound => ?_
  cases found with
  | none => exact failAtEnd
  | some token => exact pure (hfound token rfl)

theorem takeIf {kind : TokenKind} : Keeps P (Parser.takeIf kind) fun _ => True := by
  refine bind peek fun found _ => ?_
  cases found with
  | none => exact pure trivial
  | some token => exact ite (fun _ => (take h).mono fun _ _ => trivial) fun _ => pure trivial

theorem takeSymbol {symbol : Symbol} : Keeps P (Parser.takeSymbol symbol) fun _ => True := takeIf h

theorem takeWord {word : String} : Keeps P (Parser.takeWord word) fun _ => True :=
  bind (takeIf h) fun _ _ => pure trivial

theorem expectSymbol {symbol : Symbol} : Keeps P (Parser.expectSymbol symbol) fun _ => True := by
  refine bind (takeSymbol h) fun found _ => ?_
  cases found with
  | none => exact failExpecting
  | some token => exact pure trivial

theorem expectClose : Keeps P Parser.expectClose fun _ => True :=
  bind (takeRequired h) fun _ _ => ite (fun _ => pure trivial) fun _ => fail

theorem name : Keeps P Parser.name fun found => ∃ place, T ⟨.identifier found.1, place⟩ := by
  refine bind (take h) fun found hfound => ?_
  split
  · exact pure ⟨_, hfound _ rfl⟩
  · exact fail
  · exact failAtEnd

end

end Keeps

theorem good_tokens {s : TokenStream} {token : Token} (h : Good s)
    (hhead : s.tokens.head? = some token) : token.kind.Lexed ∧ (token.kind.isText →
      ∀ second ∈ s.tokens.tail.head?, second.kind.isText = false) ∧ GoodTokens s.tokens.tail := by
  rw [Good] at h
  cases hs : s.tokens with
  | nil => rw [hs] at hhead; cases hhead
  | cons first rest =>
    rw [hs] at h hhead
    obtain rfl := Option.some.inj hhead
    exact h

theorem good_tail {s t : TokenStream} (h : Good s) (ht : t.tokens = s.tokens.tail) : Good t := by
  rw [Good, ht]
  cases hhead : s.tokens.head? with
  | none => rw [List.head?_eq_none_iff.mp hhead]; trivial
  | some token => exact (good_tokens h hhead).2.2

theorem good_kept : Kept Good fun token => token.kind.Lexed := fun h => ⟨h.2.2, h.1⟩

def Sound (p : Parser α) (Q : α → Prop) : Prop := Keeps Good p Q

namespace Sound

variable {Q R : α → Prop}

theorem mono {p : Parser α} (h : Sound p R) (himp : ∀ a, R a → Q a) : Sound p Q :=
  Keeps.mono h himp

theorem ensures {P : TokenStream → Prop} {p : Parser α} (h : Sound p Q)
    (hgood : ∀ s, P s → Good s) : Ensures P p fun a t => Good t ∧ Q a :=
  Ensures.mono h hgood fun _ _ => id

theorem pure {a : α} (h : Q a) : Sound (Pure.pure a) Q := Keeps.pure h

theorem bind {p : Parser α} {f : α → Parser β} {R : β → Prop} (hp : Sound p Q)
    (hf : ∀ a, Q a → Sound (f a) R) : Sound (p >>= f) R :=
  Keeps.bind hp hf

theorem fail {cause : Cause} {span : Span} : Sound (Parser.fail cause span : Parser α) Q :=
  Keeps.fail

theorem failAtEnd {cause : Cause} : Sound (Parser.failAtEnd cause : Parser α) Q := Keeps.failAtEnd

theorem ite {c : Prop} [Decidable c] {p q : Parser α} (hp : c → Sound p Q)
    (hq : ¬ c → Sound q Q) : Sound (if c then p else q) Q :=
  Keeps.ite hp hq

theorem take : Sound Parser.take fun found => ∀ token ∈ found, token.kind.Lexed :=
  Keeps.take good_kept

theorem peekKind : Sound Parser.peekKind fun _ => True := Keeps.peekKind

theorem takeRequired {expected : String} :
    Sound (Parser.takeRequired expected) fun token => token.kind.Lexed :=
  Keeps.takeRequired good_kept

theorem failExpecting {expected : String} :
    Sound (Parser.failExpecting expected : Parser α) Q :=
  Keeps.failExpecting

theorem takeSymbol {symbol : Symbol} : Sound (Parser.takeSymbol symbol) fun _ => True :=
  Keeps.takeSymbol good_kept

theorem takeWord {word : String} : Sound (Parser.takeWord word) fun _ => True :=
  Keeps.takeWord good_kept

theorem expectSymbol {symbol : Symbol} : Sound (Parser.expectSymbol symbol) fun _ => True :=
  Keeps.expectSymbol good_kept

theorem expectClose : Sound Parser.expectClose fun _ => True := Keeps.expectClose good_kept

theorem name : Sound Parser.name fun found => IsWord found.1 :=
  (Keeps.name good_kept).mono fun _ => fun ⟨_, h⟩ => h

theorem budget_bind {f : Nat → Parser α} (hf : ∀ n, Sound (f n) Q) : Sound (Parser.budget >>= f) Q :=
  Keeps.budget_bind hf

end Sound

end Parser

end PromptTemplate
