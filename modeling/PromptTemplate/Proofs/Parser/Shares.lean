import PromptTemplate.Proofs.Parser.Reads

/-!
# Runs over the same tokens

Two streams have the same tokens up to a place. `Shares` says of two parsers,
started in front of the place, one on each stream: if the first one succeeds,
then the second one does the same and both are in front of the place still,
unless it got to the place. There it stops with a given error, or it goes on and
halts.
-/

namespace PromptTemplate

/-- The stream with more tokens in front. -/
def TokenStream.prepend (ts : List Token) (s : TokenStream) : TokenStream := ⟨ts ++ s.tokens, s.stop⟩

/-- What comes behind the place in each of the streams. -/
structure Fork where
  first : TokenStream
  second : TokenStream
  /-- What is left if the second run halts. -/
  last : TokenStream
  /-- The error with which the second run may stop at the place. -/
  error : CompileError

namespace Parser

variable {α β : Type}

/-- What comes of the two runs; `halt` is what is known if the second one halts. -/
inductive Outcome (F : Fork) (halt : Prop) (post : α → List Token → Prop) :
    Except CompileError (α × TokenStream) → Except CompileError (α × TokenStream) → Prop
  | failed {e r} : Outcome F halt post (.error e) r
  | stopped {r} : Outcome F halt post r (.error F.error)
  | halted {r b} (h : halt) : Outcome F halt post r (.ok (b, F.last))
  | shared {a more} (h : post a more) :
    Outcome F halt post (.ok (a, F.first.prepend more)) (.ok (a, F.second.prepend more))

/-- Started in front of tokens as `pre` demands, the runs share what they do. -/
def Shares (F : Fork) (halt : Prop) (pre : List Token → Prop) (p q : Parser α)
    (post : α → List Token → Prop) : Prop :=
  ∀ ts, pre ts → Outcome F halt post (p (F.first.prepend ts)) (q (F.second.prepend ts))

namespace Shares

variable {F : Fork} {halt halt' : Prop} {pre pre' : List Token → Prop} {p q : Parser α}
  {f g : α → Parser β} {mid : α → List Token → Prop} {post : β → List Token → Prop}

-- ---------------------------------------------------------------------------
-- Sequences
-- ---------------------------------------------------------------------------

theorem mono {mid' : α → List Token → Prop} (h : Shares F halt pre' p q mid')
    (hpre : ∀ ts, pre ts → pre' ts) (hpost : ∀ a ts, mid' a ts → mid a ts) :
    Shares F halt pre p q mid := by
  intro ts hts
  have houtcome := h ts (hpre ts hts)
  generalize p _ = r at *
  generalize q _ = r' at *
  cases houtcome with
  | failed => exact .failed
  | stopped => exact .stopped
  | halted h => exact .halted h
  | shared h => exact .shared (hpost _ _ h)

theorem before (h : Shares F halt pre' p q mid) (hpre : ∀ ts, pre ts → pre' ts) :
    Shares F halt pre p q mid :=
  h.mono hpre fun _ _ => id

theorem pure {a : α} (h : ∀ ts, pre ts → mid a ts) :
    Shares F halt pre (Pure.pure a) (Pure.pure a) mid :=
  fun ts hts => .shared (h ts hts)

/-- A run that halts goes on to stop. -/
theorem bind_halt (hp : Shares F halt' pre p q mid)
    (hhalt : halt' → ∀ b, g b F.last = .error F.error)
    (hf : ∀ a, Shares F halt (mid a) (f a) (g a) post) :
    Shares F halt pre (p >>= f) (q >>= g) post := by
  intro ts hts
  rw [run_bind, run_bind]
  have houtcome := hp ts hts
  generalize p _ = r at *
  generalize q _ = r' at *
  cases houtcome with
  | failed => exact .failed
  | stopped => exact .stopped
  | halted h =>
    dsimp only
    rw [hhalt h]
    exact .stopped
  | shared h => exact hf _ _ h

theorem bind (hp : Shares F False pre p q mid) (hf : ∀ a, Shares F halt (mid a) (f a) (g a) post) :
    Shares F halt pre (p >>= f) (q >>= g) post :=
  bind_halt hp False.elim hf

/-- What is made of the result. -/
theorem map {c : α → β} (hp : Shares F halt pre p q mid) (h : ∀ a ts, mid a ts → post (c a) ts) :
    Shares F halt pre (p >>= fun a => Pure.pure (c a)) (q >>= fun a => Pure.pure (c a)) post := by
  intro ts hts
  rw [run_bind, run_bind]
  have houtcome := hp ts hts
  generalize p _ = r at *
  generalize q _ = r' at *
  cases houtcome with
  | failed => exact .failed
  | stopped => exact .stopped
  | halted hhalt => exact .halted hhalt
  | shared hmid => exact .shared (h _ _ hmid)

theorem ite {c : Prop} [Decidable c] {p' q' : Parser α} (hp : c → Shares F halt pre p q mid)
    (hp' : ¬ c → Shares F halt pre p' q' mid) :
    Shares F halt pre (if c then p else p') (if c then q else q') mid := by
  by_cases h : c
  · rw [if_pos h, if_pos h]
    exact hp h
  · rw [if_neg h, if_neg h]
    exact hp' h

-- ---------------------------------------------------------------------------
-- Failures
-- ---------------------------------------------------------------------------

/-- Nothing is said of what fails in the first run. -/
theorem never (h : ∀ s, ∃ e, p s = .error e) : Shares F halt pre p q mid := by
  intro ts _
  obtain ⟨e, he⟩ := h (F.first.prepend ts)
  rw [he]
  exact .failed

theorem fail {cause : Cause} {span : Span} : Shares F halt pre (Parser.fail cause span) q mid :=
  never fun _ => ⟨_, rfl⟩

theorem failAtEnd {cause : Cause} : Shares F halt pre (Parser.failAtEnd cause) q mid := by
  refine never fun s => ?_
  unfold Parser.failAtEnd
  split <;> exact ⟨_, rfl⟩

theorem bind_never (h : ∀ s, ∃ e, p s = .error e) : Shares F halt pre (p >>= f) (q >>= g) post := by
  refine never fun s => ?_
  obtain ⟨e, he⟩ := h s
  exact ⟨e, by rw [run_bind, he]⟩

theorem failExpecting_fails (expected : String) (s : TokenStream) :
    ∃ e, (Parser.failExpecting expected : Parser α) s = .error e := by
  obtain ⟨_ | ⟨token, tokens⟩, error | position⟩ := s <;> exact ⟨_, rfl⟩

-- ---------------------------------------------------------------------------
-- Tokens
-- ---------------------------------------------------------------------------

/-- Both runs take a token that is known. -/
theorem take_known {f g : Option Token → Parser β} {token : Token} {more : List Token}
    (h : Outcome F halt post (f (some token) (F.first.prepend more))
      (g (some token) (F.second.prepend more))) :
    Outcome F halt post ((take >>= f) (F.first.prepend (token :: more)))
      ((take >>= g) (F.second.prepend (token :: more))) :=
  h

section
variable {halt : Prop} (hpre : ∀ ts, pre ts → ts ≠ [])
include hpre

theorem take_bind {f g : Option Token → Parser β}
    (hf : ∀ token, Shares F halt (fun more => pre (token :: more)) (f (some token)) (g (some token))
      post) : Shares F halt pre (take >>= f) (take >>= g) post := by
  intro ts hts
  obtain ⟨token, more, rfl⟩ := List.exists_cons_of_ne_nil (hpre ts hts)
  exact hf token more hts

theorem takeRequired_bind {expected : String} {f g : Token → Parser β}
    (hf : ∀ token, Shares F halt (fun more => pre (token :: more)) (f token) (g token) post) :
    Shares F halt pre (takeRequired expected >>= f) (takeRequired expected >>= g) post := by
  intro ts hts
  obtain ⟨token, more, rfl⟩ := List.exists_cons_of_ne_nil (hpre ts hts)
  exact hf token more hts

/-- Both runs see the next token, so they take it or leave it. -/
theorem takeIf_bind {kind : TokenKind} {f g : Option Token → Parser β}
    (hnone : Shares F halt (fun ts => pre ts ∧ ∀ token ∈ ts.head?, token.kind ≠ kind)
      (f none) (g none) post)
    (hsome : ∀ place, Shares F halt (fun more => pre (⟨kind, place⟩ :: more))
      (f (some ⟨kind, place⟩)) (g (some ⟨kind, place⟩)) post) :
    Shares F halt pre (takeIf kind >>= f) (takeIf kind >>= g) post := by
  intro ts hts
  obtain ⟨⟨found, place⟩, more, rfl⟩ := List.exists_cons_of_ne_nil (hpre ts hts)
  have htakeIf (s : TokenStream) : takeIf kind (s.prepend (⟨found, place⟩ :: more)) =
      if found = kind then .ok (some ⟨found, place⟩, s.prepend more)
      else .ok (none, s.prepend (⟨found, place⟩ :: more)) :=
    takeIf_cons kind
  rw [run_bind, run_bind, htakeIf, htakeIf]
  by_cases h : found = kind
  · subst h
    rw [if_pos rfl, if_pos rfl]
    exact hsome place more hts
  · rw [if_neg h, if_neg h]
    refine hnone _ ⟨hts, ?_⟩
    rintro _ ⟨⟩
    exact h

theorem takeSymbol_bind {symbol : Symbol} {f g : Option Token → Parser β}
    (hnone : Shares F halt pre (f none) (g none) post)
    (hsome : ∀ place, Shares F halt (fun more => pre (⟨.symbol symbol, place⟩ :: more))
      (f (some ⟨.symbol symbol, place⟩)) (g (some ⟨.symbol symbol, place⟩)) post) :
    Shares F halt pre (takeSymbol symbol >>= f) (takeSymbol symbol >>= g) post :=
  takeIf_bind hpre (hnone.before fun _ => And.left) hsome

theorem takeWord_bind {word : String} {f g : Bool → Parser β}
    (hfalse : Shares F halt (fun ts => pre ts ∧ ∀ token ∈ ts.head?, token.kind ≠ .identifier word)
      (f false) (g false) post)
    (htrue : ∀ place, Shares F halt (fun more => pre (⟨.identifier word, place⟩ :: more))
      (f true) (g true) post) :
    Shares F halt pre (takeWord word >>= f) (takeWord word >>= g) post := by
  unfold takeWord
  simp only [bind_assoc, pure_bind]
  exact takeIf_bind hpre hfalse htrue

theorem expectSymbol_bind {symbol : Symbol} {f g : Token → Parser β}
    (hf : ∀ place, Shares F halt (fun more => pre (⟨.symbol symbol, place⟩ :: more))
      (f ⟨.symbol symbol, place⟩) (g ⟨.symbol symbol, place⟩) post) :
    Shares F halt pre (expectSymbol symbol >>= f) (expectSymbol symbol >>= g) post := by
  unfold expectSymbol
  simp only [bind_assoc]
  refine takeSymbol_bind hpre (bind_never (failExpecting_fails _)) fun place => ?_
  simpa only [pure_bind] using hf place

theorem name_bind {f g : String × Span → Parser β}
    (hf : ∀ word place, Shares F halt (fun more => pre (⟨.identifier word, place⟩ :: more))
      (f (word, place)) (g (word, place)) post) :
    Shares F halt pre (Parser.name >>= f) (Parser.name >>= g) post := by
  unfold Parser.name
  simp only [bind_assoc]
  refine take_bind hpre fun ⟨kind, place⟩ => ?_
  cases kind with
  | identifier word => simpa only [pure_bind] using hf word place
  | _ => exact bind_never fun _ => ⟨_, rfl⟩

theorem expectClose_bind {f g : Span → Parser β}
    (hf : ∀ place, Shares F halt (fun more => pre (⟨.mustacheClose, place⟩ :: more)) (f place)
      (g place) post) :
    Shares F halt pre (expectClose >>= f) (expectClose >>= g) post := by
  unfold expectClose
  simp only [bind_assoc]
  refine takeRequired_bind hpre fun ⟨kind, place⟩ => ?_
  dsimp only
  by_cases h : kind = .mustacheClose
  · subst h
    rw [if_pos rfl, pure_bind]
    exact hf place
  · rw [if_neg h]
    exact bind_never fun _ => ⟨_, rfl⟩

end

end Shares

end Parser

end PromptTemplate
