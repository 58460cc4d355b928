import PromptTemplate.Proofs.Action
import PromptTemplate.Proofs.Parser.Reads
import PromptTemplate.Proofs.Syntax.MapSpans
import PromptTemplate.Proofs.Token.Moved

/-!
# Two runs of a parser

A parser looks at the kinds of tokens alone; their spans go into what it makes
and into its errors, and the number of the tokens bounds its repetitions. So
from two streams of the same kinds it makes the same things at other places,
or fails on both. `Pairing` says what is between the two streams, and what is
known of the modes in which the lexer was at a place of the first one;
`Paired` says it of two parsers, which are most of the time the same one.
-/

namespace PromptTemplate

/-- What a reader of templates may find wrong: neither that it expected a text, as there may be one
everywhere between the tags, nor a node that it put in a wrong place itself. -/
def Cause.isReadable : Cause → Bool
  | .unexpected expected => expected ≠ "text"
  | .unexpectedEnd expected => expected ≠ "text"
  | .unsupportedNode _ => false
  | _ => true

theorem Symbol.isReadable_text (symbol : Symbol) :
    (Cause.unexpected symbol.text).isReadable ∧ (Cause.unexpectedEnd symbol.text).isReadable := by
  cases symbol <;> decide

/-- There is nothing wrong in front, and no section. -/
inductive TokenStream.Plain : TokenStream → Prop
  | finished {place} : Plain ⟨[], .ok place⟩
  | token {token more stop} (h : ∀ body, token.kind ≠ .config body) : Plain ⟨token :: more, stop⟩

namespace Parser

structure Pairing where
  span : Span → Span
  join : ∀ first last, span (first.join last) = (span first).join (span last)
  Errors : CompileError → CompileError → Prop
  /-- Where the first stream ends the second one may go on with this, from a closing brace on. -/
  Closing : TokenStream → Prop
  /-- At the front of the first stream the lexer was in these modes. -/
  Read : List Mode → TokenStream → Prop
  /-- The modes are known, so no token comes that they do not have. -/
  strict : Prop
  errors : ∀ cause place, (strict → cause.isReadable) → Errors ⟨cause, place⟩ ⟨cause, span place⟩
  closed : ∀ s, Closing s → ∀ e e', Errors e e'
  tail : ∀ {modes modes' token tokens stop}, Read modes ⟨token :: tokens, stop⟩ →
    Shift modes token.kind modes' → Read modes' ⟨tokens, stop⟩
  shift : ∀ {modes token tokens stop}, strict → Read modes ⟨token :: tokens, stop⟩ →
    ∃ modes', Shift modes token.kind modes'

namespace Pairing

variable (T : Pairing)

/-- The end of the first stream, and what the second one has there. -/
inductive Stops : Except CompileError Position → TokenStream → Prop
  | error {e e'} (h : T.Errors e e') : Stops (.error e) ⟨[], .error e'⟩
  | ok {p p'} (hopen : ∀ s, ¬ T.Closing s) (h : T.span (.empty p) = .empty p') :
    Stops (.ok p) ⟨[], .ok p'⟩
  | closed {p place more stop} (h : T.Closing ⟨⟨.mustacheClose, place⟩ :: more, stop⟩) :
    Stops (.ok p) ⟨⟨.mustacheClose, place⟩ :: more, stop⟩

/-- The second stream has the tokens of the first one, of which there are at most `n`, and what
stands for its end. -/
structure Linked (P : TokenStream → Prop) (n : Nat) (s t : TokenStream) : Prop where
  read : P s
  length : s.tokens.length ≤ n
  tokens : ∃ u, T.Stops s.stop u ∧ t = ⟨s.tokens.map (Token.mapSpan T.span) ++ u.tokens, u.stop⟩

/-- Where the lexer was in these modes. -/
abbrev At (modes : List Mode) (n : Nat) : TokenStream → TokenStream → Prop :=
  T.Linked (T.Read modes) n

/-- Where the first stream ends. -/
structure AtEnd (modes : List Mode) (n : Nat) (s t : TokenStream) : Prop where
  linked : T.At modes n s t
  tokens : s.tokens = []

/-- In front of this token. -/
structure Facing (modes : List Mode) (n : Nat) (token : Token) (s t : TokenStream) : Prop where
  linked : T.At modes n s t
  head : s.tokens.head? = some token

/-- Where a document starts: the lexer fails, or it is in text there or behind the section. -/
inductive Front : TokenStream → Prop
  | failed {e} : Front ⟨[], .error e⟩
  | plain {s} (h : s.Plain) (hread : T.Read [] s) : Front s
  | config {body place tokens stop} (hread : T.Read [] ⟨tokens, stop⟩) :
    Front ⟨⟨.config body, place⟩ :: tokens, stop⟩

/-- Behind a token of this kind, so that there is one less. -/
def Past (modes : List Mode) (kind : TokenKind) (n : Nat) (s t : TokenStream) : Prop :=
  ∃ n' < n, T.Linked (fun s => ∀ modes', Shift modes kind modes' → T.Read modes' s) n' s t

/-- The second run has made what the first one has, at the places of the second stream. -/
structure Made {α β : Type} (m : α → β) (modes : List Mode) (n : Nat) (a : α) (b : β)
    (s t : TokenStream) : Prop where
  value : b = m a
  linked : T.At modes n s t

/-- Both runs succeed, or both fail. -/
inductive Results {α β : Type} (Q : α → β → TokenStream → TokenStream → Prop) :
    Except CompileError (α × TokenStream) → Except CompileError (β × TokenStream) → Prop
  | ok {a b s t} (h : Q a b s t) : Results Q (.ok (a, s)) (.ok (b, t))
  | error {e e'} (h : T.Errors e e') : Results Q (.error e) (.error e')

end Pairing

open Pairing

def Paired {α β : Type} (T : Pairing) (P : TokenStream → TokenStream → Prop) (p : Parser α)
    (q : Parser β) (Q : α → β → TokenStream → TokenStream → Prop) : Prop :=
  ∀ s t, P s t → T.Results Q (p s) (q t)

theorem Pairing.errors_atEnd {T : Pairing} {cause : Cause} {p p' : Position}
    (h : cause.isReadable) (hp : T.span (.empty p) = .empty p') :
    T.Errors ⟨cause, .empty p⟩ ⟨cause, .empty p'⟩ :=
  hp ▸ T.errors cause (.empty p) fun _ => h

variable {α β γ δ : Type} {T : Pairing} {modes modes' : List Mode} {n k : Nat}
  {P P' : TokenStream → TokenStream → Prop} {Q Q' : α → β → TokenStream → TokenStream → Prop}
  {R : γ → δ → TokenStream → TokenStream → Prop}

theorem Pairing.Linked.mono {P : TokenStream → Prop} {s t : TokenStream} (h : T.Linked P k s t)
    (hle : k ≤ n) : T.Linked P n s t :=
  { h with length := Nat.le_trans h.length hle }

/-- Behind the first token. -/
theorem Pairing.Linked.tail {P : TokenStream → Prop} {token : Token} {tokens : List Token}
    {stop : Except CompileError Position} {t : TokenStream}
    (h : T.Linked P n ⟨token :: tokens, stop⟩ t) :
    ∃ tokens' stop', t = ⟨token.mapSpan T.span :: tokens', stop'⟩ ∧
      ∃ k < n, ∀ P', P' ⟨tokens, stop⟩ → T.Linked P' k ⟨tokens, stop⟩ ⟨tokens', stop'⟩ := by
  obtain ⟨-, hlength, u, hu, rfl⟩ := h
  exact ⟨_, _, rfl, tokens.length, hlength, fun P' hP' => ⟨hP', Nat.le_refl _, u, hu, rfl⟩⟩

/-- The two ways in which the streams may start. -/
theorem Pairing.Linked.cases {P : TokenStream → Prop} {s t : TokenStream} (h : T.Linked P n s t) :
    (∃ stop u, T.Stops stop u ∧ s = ⟨[], stop⟩ ∧ t = u) ∨
    ∃ token tokens tokens' stop stop', s = ⟨token :: tokens, stop⟩ ∧
      t = ⟨token.mapSpan T.span :: tokens', stop'⟩ ∧
      ∃ k < n, ∀ P', P' ⟨tokens, stop⟩ → T.Linked P' k ⟨tokens, stop⟩ ⟨tokens', stop'⟩ := by
  obtain ⟨tokens, stop⟩ := s
  cases tokens with
  | nil =>
    obtain ⟨-, -, u, hu, rfl⟩ := h
    exact .inl ⟨stop, u, hu, rfl, rfl⟩
  | cons token tokens =>
    obtain ⟨tokens', stop', rfl, hrest⟩ := h.tail
    exact .inr ⟨token, tokens, tokens', stop, stop', rfl, rfl, hrest⟩

/-- The stream of a text somewhere else. -/
theorem Pairing.linked_of_streams {M : Motion} {P : TokenStream → Prop} {s t : TokenStream}
    (hspan : ∀ {place place'}, M.Spans place place' → place' = T.span place) (hstrict : ¬ T.strict)
    (hopen : ∀ s, ¬ T.Closing s) (hread : P s) (h : M.Streams s t) :
    T.Linked P s.tokens.length s t := by
  have htokens := h.tokens_eq_map hspan
  obtain ⟨tokens, stop⟩ := s
  obtain ⟨tokens', stop'⟩ := t
  have hstop : M.Stops stop stop' := h.stop
  obtain rfl : tokens' = tokens.map (Token.mapSpan T.span) := htokens
  refine ⟨hread, Nat.le_refl _, ⟨[], stop'⟩, ?_, by rw [List.append_nil]⟩
  cases hstop with
  | ok hp => exact .ok hopen (hspan (M.between hp hp)).symm
  | @error e e' he =>
    obtain ⟨cause, place⟩ := e
    obtain ⟨_, place'⟩ := e'
    obtain ⟨rfl, hplace⟩ := he
    obtain rfl : place' = T.span place := hspan hplace
    exact .error (T.errors _ _ fun h => absurd h hstrict)

namespace Paired

-- ---------------------------------------------------------------------------
-- Sequences and failures
-- ---------------------------------------------------------------------------

theorem mono {p : Parser α} {q : Parser β} (h : Paired T P' p q Q')
    (hbefore : ∀ s t, P s t → P' s t) (hafter : ∀ a b s t, Q' a b s t → Q a b s t) :
    Paired T P p q Q := by
  intro s t hst
  have hresults := h s t (hbefore s t hst)
  generalize p s = result at *
  generalize q t = result' at *
  cases hresults with
  | ok h => exact .ok (hafter _ _ _ _ h)
  | error h => exact .error h

theorem before {p : Parser α} {q : Parser β} (h : Paired T P' p q Q)
    (hbefore : ∀ s t, P s t → P' s t) : Paired T P p q Q :=
  h.mono hbefore fun _ _ _ _ => id

theorem pure {a : α} {b : β} (h : ∀ s t, P s t → Q a b s t) : Paired T P (pure a) (pure b) Q :=
  fun s t hst => .ok (h s t hst)

theorem made {m : α → β} {a : α} {b : β} (hvalue : b = m a) (hle : k ≤ n) :
    Paired T (T.At modes k) (Pure.pure a) (Pure.pure b) (T.Made m modes n) :=
  pure fun _ _ hst => ⟨hvalue, hst.mono hle⟩

/-- The bound on the tokens that are left may be greater than it has to be. -/
theorem grow {m : α → β} {p : Parser α} {q : Parser β} (h : Paired T P p q (T.Made m modes k))
    (hle : k ≤ n) : Paired T P p q (T.Made m modes n) :=
  h.mono (fun _ _ => id) fun _ _ _ _ hmade => ⟨hmade.value, hmade.linked.mono hle⟩

theorem bind {p : Parser α} {q : Parser β} {f : α → Parser γ} {g : β → Parser δ}
    (hp : Paired T P p q Q) (hf : ∀ a b, Paired T (Q a b) (f a) (g b) R) :
    Paired T P (p >>= f) (q >>= g) R := by
  intro s t hst
  rw [run_bind, run_bind]
  have hresults := hp s t hst
  generalize p s = result at hresults
  generalize q t = result' at hresults
  cases hresults with
  | ok h => exact hf _ _ _ _ h
  | error h => exact .error h

/-- Nothing comes after a failure. -/
theorem never {p : Parser α} {q : Parser β} {f : α → Parser γ} {g : β → Parser δ}
    (h : Paired T P p q fun _ _ _ _ => False) : Paired T P (p >>= f) (q >>= g) R :=
  bind h fun _ _ _ _ => False.elim

theorem bind_made {m : α → β} {p : Parser α} {q : Parser β} {f : α → Parser γ}
    {g : β → Parser δ} (hp : Paired T P p q (T.Made m modes n))
    (hf : ∀ a, Paired T (T.At modes n) (f a) (g (m a)) R) :
    Paired T P (p >>= f) (q >>= g) R := by
  refine bind hp fun a b s t hst => ?_
  rw [hst.value]
  exact hf a s t hst.linked

theorem fail {cause : Cause} (h : cause.isReadable) (place : Span) :
    Paired T P (Parser.fail cause place) (Parser.fail cause (T.span place)) Q :=
  fun _ _ _ => .error (T.errors cause place fun _ => h)

theorem failAtEnd_of_stops {cause : Cause} (h : cause.isReadable)
    (hstops : ∀ s t, P s t → ∃ u, T.Stops s.stop u ∧ t.stop = u.stop) :
    Paired T P (Parser.failAtEnd cause) (Parser.failAtEnd cause) Q := by
  intro s t hst
  obtain ⟨u, hu, ht⟩ := hstops s t hst
  unfold Parser.failAtEnd
  rw [ht]
  generalize s.stop = stop at hu
  cases hu with
  | error he => exact .error he
  | ok _ hp => exact .error (Pairing.errors_atEnd h hp)
  | @closed p place more stop hclosing => cases stop <;> exact .error (T.closed _ hclosing _ _)

theorem failAtEnd {cause : Cause} (h : cause.isReadable) :
    Paired T (T.At modes n) (Parser.failAtEnd cause) (Parser.failAtEnd cause) Q := by
  refine failAtEnd_of_stops h fun s t hst => ?_
  obtain ⟨u, hu, ht⟩ := hst.tokens
  exact ⟨u, hu, by rw [ht]⟩

theorem ite {c : Prop} [Decidable c] {p p' : Parser α} {q q' : Parser β}
    (hp : c → Paired T P p q Q) (hp' : ¬ c → Paired T P p' q' Q) :
    Paired T P (if c then p else p') (if c then q else q') Q := by
  by_cases h : c
  · rw [if_pos h, if_pos h]
    exact hp h
  · rw [if_neg h, if_neg h]
    exact hp' h

/-- The budgets of the two runs may differ, but both are above the number of tokens. -/
theorem budget_bind {f g : Nat → Parser α} {m : α → α}
    (hf : ∀ k b b', k ≤ n → k < b → k < b' →
      Paired T (T.At modes k) (f b) (g b') (T.Made m modes' k)) :
    Paired T (T.At modes n) (budget >>= f) (budget >>= g) (T.Made m modes' n) := by
  intro s t hst
  have hlength : s.tokens.length ≤ t.tokens.length := by
    obtain ⟨u, -, rfl⟩ := hst.tokens
    simp
  exact (hf s.tokens.length (s.tokens.length + 1) (t.tokens.length + 1) hst.length
    (Nat.lt_succ_self _) (Nat.lt_succ_of_le hlength)).grow hst.length s t
      { hst with length := Nat.le_refl _ }

-- ---------------------------------------------------------------------------
-- Looking ahead
-- ---------------------------------------------------------------------------

theorem atEnd {p : Parser α} {q : Parser β} (h : Paired T (T.At modes n) p q Q) :
    Paired T (T.AtEnd modes n) p q Q :=
  h.before fun _ _ hst => hst.linked

/-- In front of a token its kind decides; at the end the second run may see a closing brace. -/
theorem peek_bind {f g : Option Token → Parser α} {Q : α → α → TokenStream → TokenStream → Prop}
    (hend : Paired T (T.AtEnd modes n) (f none) (g none) Q)
    (hclosed : ∀ p place more stop, T.Closing ⟨⟨.mustacheClose, place⟩ :: more, stop⟩ →
      T.AtEnd modes n ⟨[], .ok p⟩ ⟨⟨.mustacheClose, place⟩ :: more, stop⟩ →
        T.Results Q (f none ⟨[], .ok p⟩)
          (g (some ⟨.mustacheClose, place⟩) ⟨⟨.mustacheClose, place⟩ :: more, stop⟩))
    (hsome : ∀ token, Paired T (T.Facing modes n token) (f (some token))
      (g (some (token.mapSpan T.span))) Q) :
    Paired T (T.At modes n) (Parser.peek >>= f) (Parser.peek >>= g) Q := by
  intro s t hst
  obtain ⟨stop, u, hu, rfl, rfl⟩ | ⟨token, tokens, tokens', stop, stop', rfl, rfl, -⟩ := hst.cases
  · cases hu with
    | error he => exact .error he
    | ok _ hp => exact hend _ _ ⟨hst, rfl⟩
    | closed hclosing => exact hclosed _ _ _ _ hclosing ⟨hst, rfl⟩
  · exact hsome token _ _ ⟨hst, rfl⟩

/-- What is done at the end is done at a closing brace, too. -/
theorem peekKind_bind {f g : Option TokenKind → Parser α}
    {Q : α → α → TokenStream → TokenStream → Prop}
    (hend : Paired T (T.At modes n) (f none) (g none) Q)
    (hclosed : g (some .mustacheClose) = g none)
    (hsome : ∀ token, Paired T (T.Facing modes n token) (f (some token.kind))
      (g (some token.kind)) Q) :
    Paired T (T.At modes n) (Parser.peekKind >>= f) (Parser.peekKind >>= g) Q := by
  simp only [Parser.peekKind, bind_assoc, pure_bind]
  refine peek_bind (atEnd hend) (fun p place more stop _ hst => ?_) hsome
  rw [Option.map_some, hclosed]
  exact hend _ _ hst.linked

theorem facing {token : Token} {p : Parser α} {q : Parser β} (h : Paired T (T.At modes n) p q Q) :
    Paired T (T.Facing modes n token) p q Q :=
  h.before fun _ _ hst => hst.linked

/-- A token that the lexer does not take in these modes. -/
theorem fail_facing {token : Token} (h : ∀ modes', ¬ Shift modes token.kind modes') (cause : Cause)
    (place : Span) :
    Paired T (T.Facing modes n token) (Parser.fail cause place)
      (Parser.fail cause (T.span place)) Q := by
  rintro s t ⟨hst, hhead⟩
  obtain ⟨stop, u, -, rfl, -⟩ | ⟨token, tokens, tokens', stop, stop', rfl, rfl, -⟩ := hst.cases
  · cases hhead
  · obtain rfl := Option.some.inj hhead
    refine .error (T.errors cause place fun hstrict => ?_)
    obtain ⟨modes', hshift⟩ := T.shift hstrict hst.read
    exact absurd hshift (h modes')

/-- Behind a token that leads to other modes. -/
theorem past {kind : TokenKind} (hshift : Shift modes kind modes') {p : Parser α} {q : Parser β}
    (h : ∀ k < n, Paired T (T.At modes' k) p q Q) : Paired T (T.Past modes kind n) p q Q := by
  rintro s t ⟨k, hlt, hst⟩
  exact h k hlt s t { hst with read := hst.read modes' hshift }

-- ---------------------------------------------------------------------------
-- Taking tokens
-- ---------------------------------------------------------------------------

theorem past_of_rest {token : Token} {tokens tokens' : List Token}
    {stop stop' : Except CompileError Position}
    (hread : T.Read modes ⟨token :: tokens, stop⟩)
    (hrest : ∃ k < n, ∀ P', P' ⟨tokens, stop⟩ → T.Linked P' k ⟨tokens, stop⟩ ⟨tokens', stop'⟩) :
    T.Past modes token.kind n ⟨tokens, stop⟩ ⟨tokens', stop'⟩ := by
  obtain ⟨k, hk, hrest⟩ := hrest
  exact ⟨k, hk, hrest _ fun _ hshift => T.tail hread hshift⟩

theorem take_facing {token : Token} {f g : Option Token → Parser α}
    {Q : α → α → TokenStream → TokenStream → Prop}
    (hf : Paired T (T.Past modes token.kind n) (f (some token))
      (g (some (token.mapSpan T.span))) Q) :
    Paired T (T.Facing modes n token) (Parser.take >>= f) (Parser.take >>= g) Q := by
  rintro s t ⟨hst, hhead⟩
  obtain ⟨stop, u, -, rfl, -⟩ | ⟨token, tokens, tokens', stop, stop', rfl, rfl, hrest⟩ := hst.cases
  · cases hhead
  · obtain rfl := Option.some.inj hhead
    exact hf _ _ (past_of_rest hst.read hrest)

theorem takeRequired_facing {token : Token} {expected : String} {f g : Token → Parser α}
    {Q : α → α → TokenStream → TokenStream → Prop}
    (hf : Paired T (T.Past modes token.kind n) (f token) (g (token.mapSpan T.span)) Q) :
    Paired T (T.Facing modes n token) (Parser.takeRequired expected >>= f)
      (Parser.takeRequired expected >>= g) Q := by
  simp only [Parser.takeRequired, bind_assoc]
  refine take_facing ?_
  simpa only [pure_bind] using hf

/-- At the end nothing is taken, unless the second run takes a closing brace. -/
theorem take_bind {f g : Option Token → Parser α} {Q : α → α → TokenStream → TokenStream → Prop}
    (hend : Paired T (T.At modes n) (f none) (g none) Q)
    (hclosed : ∀ p place more stop, T.Closing ⟨⟨.mustacheClose, place⟩ :: more, stop⟩ →
      T.Results Q (f none ⟨[], .ok p⟩) (g (some ⟨.mustacheClose, place⟩) ⟨more, stop⟩))
    (hsome : ∀ token, Paired T (T.Past modes token.kind n) (f (some token))
      (g (some (token.mapSpan T.span))) Q) :
    Paired T (T.At modes n) (Parser.take >>= f) (Parser.take >>= g) Q := by
  intro s t hst
  obtain ⟨stop, u, hu, rfl, rfl⟩ | ⟨token, tokens, tokens', stop, stop', rfl, rfl, hrest⟩ := hst.cases
  · cases hu with
    | error he => exact .error he
    | ok _ hp => exact hend _ _ hst
    | closed hclosing => exact hclosed _ _ _ _ hclosing
  · exact hsome token _ _ (past_of_rest hst.read hrest)

/-- A closing brace that the second run takes is refused. -/
theorem takeRequired_bind {expected : String} {f g : Token → Parser α}
    {Q : α → α → TokenStream → TokenStream → Prop}
    (hexpected : (Cause.unexpectedEnd expected).isReadable)
    (hclosed : ∀ place more stop, T.Closing ⟨⟨.mustacheClose, place⟩ :: more, stop⟩ →
      ∃ e, g ⟨.mustacheClose, place⟩ ⟨more, stop⟩ = .error e)
    (hf : ∀ token, Paired T (T.Past modes token.kind n) (f token) (g (token.mapSpan T.span)) Q) :
    Paired T (T.At modes n) (Parser.takeRequired expected >>= f)
      (Parser.takeRequired expected >>= g) Q := by
  simp only [Parser.takeRequired, bind_assoc]
  refine take_bind ?_ (fun p place more stop hclosing => ?_) fun token => ?_
  · exact never (failAtEnd hexpected)
  · obtain ⟨e, he⟩ := hclosed place more stop hclosing
    simp only [pure_bind, he]
    exact .error (T.closed _ hclosing _ _)
  · simpa only [pure_bind] using hf token

theorem failExpecting {expected : String} (h : (Cause.unexpected expected).isReadable)
    (h' : (Cause.unexpectedEnd expected).isReadable)
    {Q : α → α → TokenStream → TokenStream → Prop} :
    Paired T (T.At modes n) (Parser.failExpecting expected) (Parser.failExpecting expected) Q := by
  refine peek_bind (atEnd (failAtEnd h')) (fun p place more stop hclosing _ => ?_)
    fun token => fail h _
  exact .error (T.closed _ hclosing _ _)

theorem takeIf_bind {kind : TokenKind} (hkind : kind ≠ .mustacheClose)
    {f g : Option Token → Parser α} {Q : α → α → TokenStream → TokenStream → Prop}
    (hnone : Paired T (T.At modes n) (f none) (g none) Q)
    (hsome : ∀ place, Paired T (T.Past modes kind n) (f (some ⟨kind, place⟩))
      (g (some ⟨kind, T.span place⟩)) Q) :
    Paired T (T.At modes n) (Parser.takeIf kind >>= f) (Parser.takeIf kind >>= g) Q := by
  unfold Parser.takeIf
  simp only [bind_assoc]
  have hrefused {found : TokenKind} (h : found ≠ kind) (f : Option Token → Parser α) :
      (if found = kind then take else Pure.pure none) >>= f = f none := by
    rw [if_neg h, pure_bind]
  have hend : Paired T (T.At modes n) (Pure.pure none >>= f) (Pure.pure none >>= g) Q := by
    simpa only [pure_bind] using hnone
  refine peek_bind (atEnd hend) (fun p place more stop _ hst => ?_) fun token => ?_
  · dsimp only
    rw [hrefused hkind.symm]
    exact hend _ _ hst.linked
  · obtain ⟨found, place⟩ := token
    dsimp only [Token.mapSpan]
    by_cases h : found = kind
    · subst h
      rw [if_pos rfl]
      exact take_facing (hsome place)
    · rw [hrefused h, hrefused h]
      exact facing hnone

/-- A symbol of an expression, and the modes behind it. -/
theorem takeSymbol_bind {symbol : Symbol} (hshift : Shift modes (.symbol symbol) modes')
    {f g : Option Token → Parser α} {Q : α → α → TokenStream → TokenStream → Prop}
    (hnone : Paired T (T.At modes n) (f none) (g none) Q)
    (hsome : ∀ place, ∀ k < n, Paired T (T.At modes' k) (f (some ⟨.symbol symbol, place⟩))
      (g (some ⟨.symbol symbol, T.span place⟩)) Q) :
    Paired T (T.At modes n) (Parser.takeSymbol symbol >>= f) (Parser.takeSymbol symbol >>= g) Q :=
  takeIf_bind (by simp) hnone fun place => past hshift (hsome place)

/-- A symbol that may be there or not. -/
theorem optional_bind {symbol : Symbol} (hshift : Shift modes (.symbol symbol) modes)
    {f g : Option Token → Parser α} {Q : α → α → TokenStream → TokenStream → Prop}
    (hf : ∀ found, ∀ k ≤ n, Paired T (T.At modes k) (f found)
      (g (found.map (Token.mapSpan T.span))) Q) :
    Paired T (T.At modes n) (Parser.takeSymbol symbol >>= f) (Parser.takeSymbol symbol >>= g) Q :=
  takeSymbol_bind hshift (hf none n (Nat.le_refl n)) fun place k hk =>
    hf (some ⟨.symbol symbol, place⟩) k (Nat.le_of_lt hk)

theorem takeWord_bind {word : String} (hshift : Shift modes (.identifier word) modes')
    {f g : Bool → Parser α} {Q : α → α → TokenStream → TokenStream → Prop}
    (hfalse : Paired T (T.At modes n) (f false) (g false) Q)
    (htrue : ∀ k < n, Paired T (T.At modes' k) (f true) (g true) Q) :
    Paired T (T.At modes n) (Parser.takeWord word >>= f) (Parser.takeWord word >>= g) Q := by
  unfold Parser.takeWord
  simp only [bind_assoc, pure_bind]
  exact takeIf_bind (by simp) hfalse fun place => past hshift htrue

theorem expectSymbol_bind {symbol : Symbol} (hshift : Shift modes (.symbol symbol) modes')
    {f g : Token → Parser α} {Q : α → α → TokenStream → TokenStream → Prop}
    (hf : ∀ place, ∀ k < n, Paired T (T.At modes' k) (f ⟨.symbol symbol, place⟩)
      (g ⟨.symbol symbol, T.span place⟩) Q) :
    Paired T (T.At modes n) (Parser.expectSymbol symbol >>= f)
      (Parser.expectSymbol symbol >>= g) Q := by
  obtain ⟨htext, htext'⟩ := symbol.isReadable_text
  unfold Parser.expectSymbol
  simp only [bind_assoc]
  refine takeSymbol_bind hshift ?_ fun place k hk => ?_
  · exact never (failExpecting htext htext')
  · simpa only [pure_bind] using hf place k hk

theorem name_bind (hshift : ∀ word, Shift modes (.identifier word) modes')
    {f g : String × Span → Parser α} {Q : α → α → TokenStream → TokenStream → Prop}
    (hf : ∀ word place, ∀ k < n, Paired T (T.At modes' k) (f (word, place))
      (g (word, T.span place)) Q) :
    Paired T (T.At modes n) (Parser.name >>= f) (Parser.name >>= g) Q := by
  unfold Parser.name
  simp only [bind_assoc]
  refine take_bind (never (failAtEnd rfl)) (fun p place more stop hclosing => ?_) fun token => ?_
  · exact .error (T.closed _ hclosing _ _)
  · obtain ⟨kind, place⟩ := token
    dsimp only [Token.mapSpan]
    cases kind with
    | identifier word => simpa only [pure_bind] using past (hshift word) (hf word place)
    | _ => exact never (fail rfl place)

-- ---------------------------------------------------------------------------
-- Where both streams end
-- ---------------------------------------------------------------------------

section
variable (hopen : ∀ s, ¬ T.Closing s)
include hopen

theorem peekAt_bind {ahead : Nat} {f g : Option Token → Parser α}
    {Q : α → α → TokenStream → TokenStream → Prop} (hP : ∀ s t, P s t → T.At modes n s t)
    (hf : ∀ found, Paired T (fun s t => P s t ∧ s.tokens[ahead]? = found) (f found)
      (g (found.map (Token.mapSpan T.span))) Q) :
    Paired T P (Parser.peekAt ahead >>= f) (Parser.peekAt ahead >>= g) Q := by
  rintro ⟨tokens, stop⟩ t hst
  obtain ⟨u, hu, rfl⟩ := (hP _ _ hst).tokens
  have hfound := hf tokens[ahead]? _ _ ⟨hst, rfl⟩
  have htokens : u.tokens = [] := by
    cases hu with
    | closed h => exact absurd h (hopen _)
    | error | ok => rfl
  rw [run_bind, run_bind]
  simp only [Parser.peekAt, htokens, List.append_nil, List.getElem?_map] at hfound ⊢
  generalize tokens[ahead]? = found at *
  cases found with
  | some token => exact hfound
  | none =>
    cases hu with
    | closed h => exact absurd h (hopen _)
    | error he => exact .error he
    | ok _ hp => exact hfound

theorem expectClose_bind {outer : List Mode} {f g : Span → Parser α}
    {Q : α → α → TokenStream → TokenStream → Prop}
    (hf : ∀ place, ∀ k < n, Paired T (T.At outer k) (f place) (g (T.span place)) Q) :
    Paired T (T.At (.expression 0 :: outer) n) (Parser.expectClose >>= f)
      (Parser.expectClose >>= g) Q := by
  unfold Parser.expectClose
  simp only [bind_assoc]
  refine takeRequired_bind (by decide) (fun _ _ _ h => absurd h (hopen _)) fun token => ?_
  rw [Token.kind_mapSpan, Token.span_mapSpan]
  by_cases h : token.kind = .mustacheClose
  · rw [if_pos h, if_pos h, h]
    simpa only [pure_bind] using past .closing (hf token.span)
  · have hcause : (Cause.unexpected "\x7d").isReadable := by decide
    rw [if_neg h, if_neg h]
    exact never (fail hcause token.span)

end

end Paired

end Parser

/-- The pairing for readers of a text of which nothing is known. -/
def Action.Pairing.parsing (E : Action.Pairing)
    (hjoin : ∀ first last, E.span (first.join last) = (E.span first).join (E.span last)) :
    Parser.Pairing where
  span := E.span
  join := hjoin
  Errors := E.Errors
  Closing _ := False
  Read _ _ := True
  strict := False
  errors cause place _ := E.errors cause place
  closed _ h := h.elim
  tail _ _ := trivial
  shift h := h.elim

end PromptTemplate
