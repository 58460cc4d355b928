import PromptTemplate.Proofs.Parser.Sound

/-!
# What parsers make of their tokens

`Makes before p made` says of `p`, started in front of a token as `before`
demands: if it gives a value, then it has taken tokens off the front of the
stream, and `made` tells of these tokens, the value and the token that is next.
-/

namespace PromptTemplate.Parser

variable {α β : Type}

def Makes (before : Option Token → Prop) (p : Parser α)
    (made : List Token → α → Option Token → Prop) : Prop :=
  ∀ s a t, before s.tokens.head? → p s = .ok (a, t) →
    ∃ ts, s.tokens = ts ++ t.tokens ∧ t.stop = s.stop ∧ made ts a t.tokens.head?

/-- No demand on the next token. -/
abbrev Anything (_ : Option Token) : Prop := True

namespace Makes

variable {before before' : Option Token → Prop} {made made' : List Token → α → Option Token → Prop}
  {after : List Token → β → Option Token → Prop}

theorem mono {p : Parser α} (h : Makes before' p made') (hbefore : ∀ next, before next → before' next)
    (hmade : ∀ ts a next, made' ts a next → made ts a next) : Makes before p made := by
  intro s a t hs hrun
  obtain ⟨ts, htokens, hstop, hmake⟩ := h s a t (hbefore _ hs) hrun
  exact ⟨ts, htokens, hstop, hmade ts a _ hmake⟩

theorem pure {a : α} (h : ∀ next, before next → made [] a next) :
    Makes before (Pure.pure a) made := by
  rintro s _ _ hs ⟨⟩
  exact ⟨[], rfl, rfl, h _ hs⟩

theorem bind {p : Parser α} {f : α → Parser β} (hp : Makes before p made)
    (hf : ∀ ts a, Makes (made ts a) (f a) fun more => after (ts ++ more)) :
    Makes before (p >>= f) after := by
  intro s b u hs hrun
  rw [run_bind] at hrun
  split at hrun
  · rename_i a t hfirst
    obtain ⟨ts, htokens, hstop, hmade⟩ := hp s a t hs hfirst
    obtain ⟨more, hmore, hstop', hafter⟩ := hf ts a t b u hmade hrun
    exact ⟨ts ++ more, by rw [htokens, hmore, List.append_assoc], hstop'.trans hstop, hafter⟩
  · cases hrun

/-- What is known of the tokens and the value alone is kept aside. -/
theorem step {p : Parser α} {f : α → Parser β} {Q : List Token → α → Prop}
    (hp : Makes before p fun ts a _ => Q ts a)
    (hf : ∀ ts a, Q ts a → Makes Anything (f a) fun more => after (ts ++ more)) :
    Makes before (p >>= f) after :=
  bind hp fun ts a s b t hQ => hf ts a hQ s b t trivial

theorem fail {cause : Cause} {span : Span} : Makes before (Parser.fail cause span : Parser α) made :=
  fun _ _ _ _ hrun => nomatch hrun

theorem failAtEnd {cause : Cause} : Makes before (Parser.failAtEnd cause : Parser α) made :=
  fun s a t _ hrun => (@Ensures.failAtEnd α (fun _ => True) (fun _ _ => False) cause s a t trivial
    hrun).elim

theorem failExpecting {expected : String} :
    Makes before (Parser.failExpecting expected : Parser α) made :=
  fun s a t _ hrun => (@Ensures.failExpecting α (fun _ => True) (fun _ _ => False) expected s a t
    trivial hrun).elim

theorem ite {c : Prop} [Decidable c] {p q : Parser α} (hp : c → Makes before p made)
    (hq : ¬ c → Makes before q made) : Makes before (if c then p else q) made := by
  by_cases h : c
  · rw [if_pos h]; exact hp h
  · rw [if_neg h]; exact hq h

-- ---------------------------------------------------------------------------
-- The next token
-- ---------------------------------------------------------------------------

theorem peek {f : Option Token → Parser β}
    (h : ∀ found, before found → Makes (· = found) (f found) after) :
    Makes before (Parser.peek >>= f) after := by
  intro s b u hs hrun
  rw [run_bind] at hrun
  split at hrun
  · rename_i found t hpeek
    obtain ⟨hsame, hfound⟩ := Ensures.peek (P := (· = s)) s found t rfl hpeek
    subst hsame
    exact h found (hfound ▸ hs) t b u hfound hrun
  · cases hrun

theorem peekKind {f : Option TokenKind → Parser β}
    (h : ∀ found, before found → Makes (· = found) (f (found.map Token.kind)) after) :
    Makes before (Parser.peekKind >>= f) after := by
  rw [Parser.peekKind, bind_assoc]
  exact peek fun found hfound => by rw [pure_bind]; exact h found hfound

/-- The token that was looked at is the one that is taken. -/
theorem take {f : Option Token → Parser β} {token : Token}
    (h : Makes Anything (f (some token)) fun ts => after (token :: ts)) :
    Makes (· = some token) (Parser.take >>= f) after := by
  rintro ⟨tokens, stop⟩ b u hs hrun
  obtain ⟨rest, rfl⟩ : ∃ rest, tokens = token :: rest := by
    cases tokens <;> cases hs
    exact ⟨_, rfl⟩
  obtain ⟨ts, htokens, hstop, hafter⟩ := h ⟨rest, stop⟩ b u trivial hrun
  exact ⟨token :: ts, congrArg (token :: ·) htokens, hstop, hafter⟩

theorem takeRequired {expected : String} {f : Token → Parser β}
    (h : ∀ token, before (some token) → Makes Anything (f token) fun ts => after (token :: ts)) :
    Makes before (Parser.takeRequired expected >>= f) after := by
  rintro ⟨tokens, stop⟩ b u hs hrun
  cases tokens with
  | nil => cases stop <;> cases hrun
  | cons token rest =>
    obtain ⟨ts, htokens, hstop, hafter⟩ := h token hs ⟨rest, stop⟩ b u trivial hrun
    exact ⟨token :: ts, congrArg (token :: ·) htokens, hstop, hafter⟩

theorem takeSymbol {symbol : Symbol} {f : Option Token → Parser β}
    (hsome : ∀ place, Makes Anything (f (some ⟨.symbol symbol, place⟩))
      fun ts => after (⟨.symbol symbol, place⟩ :: ts))
    (hnone : Makes before (f none) after) : Makes before (Parser.takeSymbol symbol >>= f) after := by
  rw [Parser.takeSymbol, takeIf, bind_assoc]
  refine peek fun found hfound => ?_
  cases found with
  | none =>
    rw [pure_bind]
    exact hnone.mono (fun _ h => h ▸ hfound) fun _ _ _ => id
  | some token =>
    obtain ⟨kind, place⟩ := token
    dsimp only
    by_cases hkind : kind = .symbol symbol
    · subst hkind
      rw [if_pos rfl]
      exact take (hsome place)
    · rw [if_neg hkind, pure_bind]
      exact hnone.mono (fun _ h => h ▸ hfound) fun _ _ _ => id

theorem expectSymbol {symbol : Symbol} {f : Token → Parser β}
    (h : ∀ place, Makes Anything (f ⟨.symbol symbol, place⟩)
      fun ts => after (⟨.symbol symbol, place⟩ :: ts)) :
    Makes before (Parser.expectSymbol symbol >>= f) after := by
  rw [Parser.expectSymbol, bind_assoc]
  refine takeSymbol (fun place => by rw [pure_bind]; exact h place) ?_
  have hfail : Makes before (Parser.failExpecting symbol.text : Parser Token) fun _ _ _ => False :=
    failExpecting
  exact hfail.bind fun _ _ _ _ _ h => h.elim

theorem name {f : String × Span → Parser β}
    (h : ∀ word place, Makes Anything (f (word, place))
      fun ts => after (⟨.identifier word, place⟩ :: ts)) :
    Makes before (Parser.name >>= f) after := by
  rintro ⟨tokens, stop⟩ b u hs hrun
  cases tokens with
  | nil => cases stop <;> cases hrun
  | cons token rest =>
    obtain ⟨kind, place⟩ := token
    cases kind with
    | identifier word =>
      obtain ⟨ts, htokens, hstop, hafter⟩ := h word place ⟨rest, stop⟩ b u trivial hrun
      exact ⟨_ :: ts, congrArg (_ :: ·) htokens, hstop, hafter⟩
    | _ => cases hrun

end Makes

end PromptTemplate.Parser
