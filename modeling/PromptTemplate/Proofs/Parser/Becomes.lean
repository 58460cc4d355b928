import PromptTemplate.Proofs.Parser.Reads

/-!
# What is left of a parser

`Becomes p tokens ahead q` says that once `p` has taken the tokens it goes on
as `q` does, if what comes after them is as `ahead` demands. A loop that has
gone round once is the same loop with a smaller bound; a parser that is done is
`pure`.
-/

namespace PromptTemplate.Parser

variable {α β : Type}

def Becomes (p : Parser α) (tokens : List Token) (ahead : Option TokenKind → Prop) (q : Parser α) :
    Prop :=
  ∀ rest stop, Ahead ahead ⟨rest, stop⟩ → p ⟨tokens ++ rest, stop⟩ = q ⟨rest, stop⟩

variable {ahead ahead' : Option TokenKind → Prop} {tokens more : List Token} {token : Token}

namespace Becomes

theorem refl (p : Parser α) : Becomes p [] ahead p := fun _ _ _ => rfl

theorem mono {p q : Parser α} (h : Becomes p tokens ahead' q) (himp : ∀ k, ahead k → ahead' k) :
    Becomes p tokens ahead q :=
  fun rest stop hrest => h rest stop (hrest.mono himp)

theorem trans {p q r : Parser α} (h : Becomes p tokens ahead' q)
    (hahead : ∀ k, Seen ahead (more.map Token.kind) k → ahead' k) (h' : Becomes q more ahead r) :
    Becomes p (tokens ++ more) ahead r := by
  intro rest stop hrest
  rw [List.append_assoc, h (more ++ rest) stop ((hrest.append rfl).mono hahead), h' rest stop hrest]

theorem bind {p q : Parser α} {f : α → Parser β} (h : Becomes p tokens ahead q) :
    Becomes (p >>= f) tokens ahead (q >>= f) := by
  intro rest stop hrest
  rw [run_bind, run_bind, h rest stop hrest]

/-- What is left takes nothing more. -/
theorem done {p q r : Parser α} (h : Becomes p tokens ahead' q) (hahead : ∀ k, ahead k → ahead' k)
    (h' : Becomes q [] ahead r) : Becomes p tokens ahead r :=
  List.append_nil tokens ▸ trans h hahead h'

variable {p : Parser α} {f : α → Parser β} {q : Parser β} {a : α}

/-- What `p` gives is made use of. -/
theorem seq (h : Becomes p tokens ahead' (Pure.pure a))
    (hahead : ∀ k, Seen ahead (more.map Token.kind) k → ahead' k) (hf : Becomes (f a) more ahead q) :
    Becomes (p >>= f) (tokens ++ more) ahead q :=
  trans h.bind hahead (by rwa [pure_bind])

/-- What follows takes nothing. -/
theorem last (h : Becomes p tokens ahead' (Pure.pure a)) (hahead : ∀ k, ahead k → ahead' k)
    (hf : Becomes (f a) [] ahead q) : Becomes (p >>= f) tokens ahead q :=
  done h.bind hahead (by rwa [pure_bind])

-- ---------------------------------------------------------------------------
-- One token
-- ---------------------------------------------------------------------------

theorem take {f : Option Token → Parser β} (h : Becomes (f (some token)) tokens ahead q) :
    Becomes (Parser.take >>= f) (token :: tokens) ahead q :=
  h

theorem takeRequired {expected : String} {f : Token → Parser β} (h : Becomes (f token) tokens ahead q) :
    Becomes (Parser.takeRequired expected >>= f) (token :: tokens) ahead q :=
  h

theorem peek {f : Option Token → Parser β}
    (h : Becomes (f (some token)) (token :: tokens) ahead q) :
    Becomes (Parser.peek >>= f) (token :: tokens) ahead q :=
  h

theorem peekKind {f : Option TokenKind → Parser β}
    (h : Becomes (f (some token.kind)) (token :: tokens) ahead q) :
    Becomes (Parser.peekKind >>= f) (token :: tokens) ahead q :=
  h

theorem name {word : String} {place : Span} {f : String × Span → Parser β}
    (h : Becomes (f (word, place)) tokens ahead q) :
    Becomes (Parser.name >>= f) (⟨.identifier word, place⟩ :: tokens) ahead q :=
  h

theorem takeSymbol {symbol : Symbol} {place : Span} {f : Option Token → Parser β}
    (h : Becomes (f (some ⟨.symbol symbol, place⟩)) tokens ahead q) :
    Becomes (Parser.takeSymbol symbol >>= f) (⟨.symbol symbol, place⟩ :: tokens) ahead q := by
  intro rest stop hrest
  rw [← h rest stop hrest]
  refine bind_of_ok ?_
  rw [Parser.takeSymbol, List.cons_append, takeIf_cons, if_pos rfl]

theorem expectSymbol {symbol : Symbol} {place : Span} {f : Token → Parser β}
    (h : Becomes (f ⟨.symbol symbol, place⟩) tokens ahead q) :
    Becomes (Parser.expectSymbol symbol >>= f) (⟨.symbol symbol, place⟩ :: tokens) ahead q := by
  rw [Parser.expectSymbol, bind_assoc]
  exact takeSymbol (by rwa [pure_bind])

-- ---------------------------------------------------------------------------
-- Nothing taken
-- ---------------------------------------------------------------------------

theorem takeSymbol_none {symbol : Symbol} {f : Option Token → Parser β}
    (hahead : ∀ k, Seen ahead (tokens.map Token.kind) k → k ≠ some (.symbol symbol))
    (h : Becomes (f none) tokens ahead q) :
    Becomes (Parser.takeSymbol symbol >>= f) tokens ahead q := by
  intro rest stop hrest
  obtain ⟨found, hfound, hrun⟩ := @Reads.takeSymbol_none symbol [] (tokens ++ rest) stop rfl
    ((hrest.append rfl).mono hahead)
  rw [List.nil_append, hfound] at hrun
  rw [bind_of_ok hrun, h rest stop hrest]

theorem peekKind_end {f : Option TokenKind → Parser β}
    (h : ∀ k, ahead k → Becomes (f k) [] (· = k) q) :
    Becomes (Parser.peekKind >>= f) [] ahead q := by
  rintro rest stop hrest
  have hsame : ∀ k, Ahead (· = k) ⟨rest, stop⟩ → ahead k → f k ⟨rest, stop⟩ = q ⟨rest, stop⟩ :=
    fun k hk ha => h k ha rest stop hk
  cases rest with
  | cons token rest => exact hsame _ rfl hrest
  | nil =>
    obtain ⟨hnone, position, hstop⟩ := hrest
    dsimp only at hstop
    subst hstop
    exact hsame none ⟨rfl, position, rfl⟩ hnone

end Becomes

end PromptTemplate.Parser
