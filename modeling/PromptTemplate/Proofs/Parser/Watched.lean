import PromptTemplate.Expr
import PromptTemplate.Parser
import PromptTemplate.Proofs.Action
import PromptTemplate.Proofs.Parser.Reads
import PromptTemplate.Proofs.Token.Moved

/-!
# Parsers under watch

Parsing again, with the lexer asked for one token at a time: tokens that are
only looked at are kept in a buffer. The routines of the grammar that have
started and the turns that loops have taken are watched. A routine that starts
inside itself, or a loop that takes another turn, with no token taken in
between has no outcome; nor has anything that is done after the lexer has
failed. A watched parser follows a plain one if it has an outcome all the same,
and this is the one of the plain parser.
-/

namespace PromptTemplate

-- ---------------------------------------------------------------------------
-- What is watched
-- ---------------------------------------------------------------------------

/-- The routines of the grammar. Each level of the operators that group to the left is one. -/
inductive Routine where
  | document | nodes | ifBlock | eachBlock | tag | attributeValue | pattern | name
  | expression | assignment | conditional | binary (level : Nat) | power | prefixed | updated
  | links | elements | primary | object
deriving DecidableEq

inductive Mark where
  | start (routine : Routine)
  /-- One more turn of the loop in a routine. -/
  | turn (routine : Routine)
deriving DecidableEq

namespace Mark

/-- Before a token is taken only marks of lower rank are passed. -/
def rank : Mark → Nat
  | start .name | start .primary => 0
  | start .links => 1
  | start .updated => 2
  | start .prefixed => 3
  | start .power => 4
  | start (.binary level) => 4 + (BinaryOp.power.level - level)
  | start .conditional => 16
  | start .assignment => 17
  | start .expression => 18
  | start .pattern => 19
  | turn _ => 20
  | start .document => 22
  | start _ => 21

/-- Above all ranks. -/
def ranks : Nat := 23

theorem rank_lt_ranks (mark : Mark) : mark.rank < ranks := by
  obtain routine | routine := mark
  · cases routine <;> simp only [rank, ranks, BinaryOp.level] <;> omega
  · exact (by decide : 20 < 23)

end Mark

/-- A mark that has been passed, and what there was then. -/
structure Passage where
  mark : Mark
  taken : Nat
  left : Nat

/-- A parser at work. -/
structure Watch where
  /-- Tokens that have been looked at and not been taken. -/
  buffer : List Token
  lexer : Lexer
  /-- How many tokens have been taken. -/
  taken : Nat
  /-- The error that the lexer has given. -/
  failure : Option CompileError
  /-- The routines and turns around this place, innermost first. -/
  passages : List Passage

namespace Watch

def start (lexer : Lexer) : Watch := ⟨[], lexer, 0, none, []⟩

/-- The tokens in the buffer and the characters behind them. -/
def left (w : Watch) : Nat := w.buffer.length + w.lexer.rest.length

/-- The tokens that are still to be taken. -/
def tokens (w : Watch) : List Token := w.buffer ++ w.lexer.stream.tokens

end Watch

/-- A token has been taken since, and less is left. -/
def Passage.Past (p : Passage) (w : Watch) : Prop := p.taken < w.taken ∧ w.left < p.left

/-- A token has been taken since the mark was passed, as often as it was. -/
def Watch.Admits (w : Watch) (mark : Mark) : Prop := ∀ p ∈ w.passages, p.mark = mark → p.Past w

instance (p : Passage) (w : Watch) : Decidable (p.Past w) :=
  inferInstanceAs (Decidable (p.taken < w.taken ∧ w.left < p.left))

instance (w : Watch) (mark : Mark) : Decidable (w.Admits mark) :=
  inferInstanceAs (Decidable (∀ p ∈ w.passages, p.mark = mark → p.Past w))

-- ---------------------------------------------------------------------------
-- Watched parsers
-- ---------------------------------------------------------------------------

abbrev Watched := Checked Watch

namespace Watch

def lex : Action Watch (Option Token) := fun w =>
  match w.lexer.next with
  | (.ok found, lexer) => (.ok found, { w with lexer })
  | (.error error, lexer) => (.error error, { w with lexer, failure := some error })

/-- Lexes tokens into the buffer, as far as there are any. -/
def fill : (missing : Nat) → Action Watch Unit
  | 0 => return
  | missing + 1 => do
    match ← lex with
    | some token =>
      modify fun w => { w with buffer := w.buffer ++ [token] }
      fill missing
    | none => return

def peekAt (ahead : Nat) : Action Watch (Option Token) := do
  fill (ahead + 1 - (← get).buffer.length)
  return (← get).buffer[ahead]?

def take : Action Watch (Option Token) := do
  match (← get).buffer with
  | token :: rest =>
    modify fun w => { w with buffer := rest, taken := w.taken + 1 }
    return some token
  | [] =>
    let found ← lex
    if found.isSome then modify fun w => { w with taken := w.taken + 1 }
    return found

end Watch

namespace Watched

variable {α β : Type}

/-- Nothing is done after the lexer has failed. -/
def operate (action : Action Watch α) : Watched α := fun w =>
  if w.failure.isNone then some (action w) else none

/-- Passes a mark, if that is admitted. The mark is left behind at the end of the body, also if
this fails. -/
def within (mark : Mark) (body : Watched α) : Watched α := fun w =>
  if w.failure.isNone ∧ w.Admits mark then
    (body { w with passages := ⟨mark, w.taken, w.left⟩ :: w.passages }).map
      fun (result, after) => (result, { after with passages := w.passages })
  else none

/-- There is no outcome where the number of turns runs out. -/
def exhausted : Watched α := fun _ => none

def fail (cause : Cause) (span : Span) : Watched α := operate fun w => (.error ⟨cause, span⟩, w)

def failAtEnd (cause : Cause) : Watched α := operate fun w =>
  (.error ⟨cause, .empty w.lexer.position⟩, w)

def peekAt (ahead : Nat) : Watched (Option Token) := operate (Watch.peekAt ahead)

def peek : Watched (Option Token) := peekAt 0

def peekKind : Watched (Option TokenKind) := return (← peek).map Token.kind

def take : Watched (Option Token) := operate Watch.take

def takeRequired (expected : String) : Watched Token := do
  match ← take with
  | some token => return token
  | none => failAtEnd (.unexpectedEnd expected)

def failExpecting (expected : String) : Watched α := do
  match ← peek with
  | some token => fail (.unexpected expected) token.span
  | none => failAtEnd (.unexpectedEnd expected)

def takeIf (kind : TokenKind) : Watched (Option Token) := do
  match ← peek with
  | some token => if token.kind = kind then take else return none
  | none => return none

def takeSymbol (symbol : Symbol) : Watched (Option Token) := takeIf (.symbol symbol)

def takeWord (word : String) : Watched Bool := return (← takeIf (.identifier word)).isSome

def expectSymbol (symbol : Symbol) : Watched Token := do
  match ← takeSymbol symbol with
  | some token => return token
  | none => failExpecting symbol.text

def expectClose : Watched Span := do
  let token ← takeRequired "\x7d"
  if token.kind = .mustacheClose then return token.span
  else fail (.unexpected "\x7d") token.span

def name : Watched (String × Span) := within (.start .name) do
  match ← take with
  | some ⟨.identifier name, span⟩ => return (name, span)
  | some token => fail .expectedName token.span
  | none => failAtEnd .expectedName

/-- Above the number of tokens to be taken, and so of turns and of routines inside each other. -/
def budget : Watched Nat := return (← get).tokens.length + 1

end Watched

-- ---------------------------------------------------------------------------
-- What the watch shows
-- ---------------------------------------------------------------------------

namespace Watch

variable {w v : Watch} {s : TokenStream}

/-- The lexer has not failed, and these are the tokens to come. -/
structure Shows (w : Watch) (s : TokenStream) : Prop where
  sound : w.failure = none
  tokens : s.tokens = w.tokens
  stop : s.stop = w.lexer.stream.stop

theorem Shows.start (l : Lexer) : Shows (start l) l.stream := ⟨rfl, rfl, rfl⟩

/-- The lexer is at the end of the text. -/
def AtEnd (w : Watch) : Prop := w.lexer.next = (.ok none, w.lexer)

theorem Shows.stop_of_atEnd (h : w.Shows s) (hend : w.AtEnd) : s.stop = .ok w.lexer.position := by
  rw [h.stop, Lexer.stream_of_finished hend]

/-- Nothing has been given back, and a token has been taken if `takes` says so. -/
structure Advances (takes : Bool) (w v : Watch) : Prop where
  passages : v.passages = w.passages
  taken : w.taken + takes.toNat ≤ v.taken
  left : v.left + takes.toNat ≤ w.left
  tokens : v.tokens.length + takes.toNat ≤ w.tokens.length

theorem Advances.refl (w : Watch) : Advances false w w :=
  ⟨rfl, Nat.le_refl _, Nat.le_refl _, Nat.le_refl _⟩

theorem Advances.trans {u : Watch} {takes takes' : Bool} (h : Advances takes w v)
    (h' : Advances takes' v u) : Advances (takes || takes') w u := by
  obtain ⟨hpassages, htaken, hleft, htokens⟩ := h
  obtain ⟨hpassages', htaken', hleft', htokens'⟩ := h'
  have hor : (takes || takes').toNat ≤ takes.toNat + takes'.toNat := by
    cases takes <;> cases takes' <;> decide
  exact ⟨hpassages'.trans hpassages, by omega, by omega, by omega⟩

theorem Advances.weaken {takes : Bool} (h : Advances true w v) : Advances takes w v := by
  have hle : takes.toNat ≤ true.toNat := Bool.toNat_le takes
  obtain ⟨hpassages, htaken, hleft, htokens⟩ := h
  exact ⟨hpassages, by omega, by omega, by omega⟩

/-- What the lexer gives stands behind the buffer. -/
theorem lex_cases (h : w.Shows s) :
    (∃ token lexer, lex w = (.ok (some token), { w with lexer }) ∧
      lexer.rest.length < w.lexer.rest.length ∧
        Shows { w with buffer := w.buffer ++ [token], lexer } s) ∨
    (∃ lexer, lex w = (.ok none, { w with lexer }) ∧
      lexer.rest.length ≤ w.lexer.rest.length ∧ AtEnd { w with lexer } ∧
        Shows { w with lexer } s ∧ s.tokens = w.buffer) ∨
    ∃ error lexer, lex w = (.error error, { w with lexer, failure := some error }) ∧
      s.tokens = w.buffer ∧ s.stop = .error error := by
  obtain ⟨hsound, htokens, hstop⟩ := h
  rcases hnext : w.lexer.next with ⟨error | _ | token, lexer⟩
  · rw [tokens, Lexer.stream_of_error hnext, List.append_nil] at htokens
    rw [Lexer.stream_of_error hnext] at hstop
    exact .inr (.inr ⟨error, lexer, by simp only [lex, hnext], htokens, hstop⟩)
  · have hend := Lexer.next_of_finished hnext
    rw [tokens, Lexer.stream_of_finished hnext, List.append_nil] at htokens
    rw [Lexer.stream_of_finished hnext] at hstop
    refine .inr (.inl ⟨lexer, by simp only [lex, hnext], ?_, hend, ⟨hsound, ?_, ?_⟩, htokens⟩)
    · rw [Lexer.rest_of_finished hnext]
      exact Nat.zero_le _
    · rw [tokens, Lexer.stream_of_finished hend, List.append_nil]
      exact htokens
    · rw [Lexer.stream_of_finished hend]
      exact hstop
  · rw [tokens, Lexer.stream_of_token hnext] at htokens
    rw [Lexer.stream_of_token hnext] at hstop
    refine .inl ⟨token, lexer, by simp only [lex, hnext], Lexer.length_of_token hnext, hsound, ?_,
      hstop⟩
    rw [htokens, tokens, List.append_assoc]
    rfl

/-- Looking ahead lexes enough tokens, unless the text ends before. -/
theorem fill_cases (missing : Nat) (h : w.Shows s) :
    (∃ v, fill missing w = (.ok (), v) ∧ v.Shows s ∧ Advances false w v ∧
      (w.buffer.length + missing ≤ v.buffer.length ∨ v.AtEnd ∧ s.tokens = v.buffer)) ∨
    ∃ error v, fill missing w = (.error error, v) ∧ v.failure = some error ∧
      s.tokens.length < w.buffer.length + missing ∧ s.stop = .error error := by
  induction missing generalizing w with
  | zero => exact .inl ⟨w, rfl, h, .refl w, .inl (Nat.le_refl _)⟩
  | succ missing ih =>
    rw [fill, Action.run_bind]
    obtain ⟨token, lexer, hlex, hshorter, hshows⟩ | ⟨lexer, hlex, hle, hend, hshows, htokens⟩ |
      ⟨error, lexer, hlex, htokens, hstop⟩ := lex_cases h
    · rw [hlex]
      have hfirst : Advances false w { w with buffer := w.buffer ++ [token], lexer } := by
        refine ⟨rfl, Nat.le_refl _, ?_, ?_⟩
        · simp only [left, List.length_append, List.length_singleton, Bool.toNat_false]
          omega
        · rw [← hshows.tokens, ← h.tokens]
          exact Nat.le_refl _
      obtain ⟨v, hfill, hv, hadvance, hfull⟩ | ⟨error, v, hfill, hfailure, hlength, hstop⟩ :=
        ih hshows
      · refine .inl ⟨v, hfill, hv, hfirst.trans hadvance, hfull.imp_left fun hlength => ?_⟩
        rw [List.length_append, List.length_singleton] at hlength
        omega
      · rw [List.length_append, List.length_singleton] at hlength
        exact .inr ⟨error, v, hfill, hfailure, by omega, hstop⟩
    · rw [hlex]
      refine .inl ⟨_, rfl, hshows, ⟨rfl, Nat.le_refl _, ?_, ?_⟩, .inr ⟨hend, htokens⟩⟩
      · exact Nat.add_le_add_left hle _
      · rw [← hshows.tokens, ← h.tokens]
        exact Nat.le_refl _
    · rw [hlex]
      refine .inr ⟨error, _, rfl, rfl, ?_, hstop⟩
      rw [htokens]
      omega

theorem peekAt_cases (ahead : Nat) (h : w.Shows s) :
    (∃ v, peekAt ahead w = (.ok s.tokens[ahead]?, v) ∧ v.Shows s ∧ Advances false w v ∧
      Parser.peekAt ahead s = .ok (s.tokens[ahead]?, s) ∧ (s.tokens[ahead]? = none → v.AtEnd)) ∨
    ∃ error v, peekAt ahead w = (.error error, v) ∧ v.failure = some error ∧
      Parser.peekAt ahead s = .error error := by
  rw [peekAt, Action.run_bind, Action.run_get]
  dsimp only
  rw [Action.run_bind]
  obtain ⟨v, hfill, hv, hadvance, hfull⟩ | ⟨error, v, hfill, hfailure, hlength, hstop⟩ :=
    fill_cases (ahead + 1 - w.buffer.length) h
  · rw [hfill]
    have hfound : v.buffer[ahead]? = s.tokens[ahead]? ∧ (s.tokens[ahead]? = none → v.AtEnd) := by
      obtain hlength | ⟨hend, htokens⟩ := hfull
      · have hlt : ahead < v.buffer.length := by omega
        rw [hv.tokens, tokens, List.getElem?_append_left hlt]
        exact ⟨rfl, fun hnone => absurd (List.getElem?_eq_none_iff.mp hnone) (by omega)⟩
      · exact ⟨by rw [htokens], fun _ => hend⟩
    refine .inl ⟨v, by rw [← hfound.1]; rfl, hv, hadvance, ?_, hfound.2⟩
    unfold Parser.peekAt
    cases hsome : s.tokens[ahead]? with
    | some token => rfl
    | none =>
      dsimp only
      rw [hv.stop_of_atEnd (hfound.2 hsome)]
  · rw [hfill]
    have hbuffer : w.buffer.length ≤ s.tokens.length := by
      rw [h.tokens, tokens, List.length_append]
      omega
    refine .inr ⟨error, v, rfl, hfailure, ?_⟩
    unfold Parser.peekAt
    rw [List.getElem?_eq_none (by omega)]
    dsimp only
    rw [hstop]

theorem take_cases (h : w.Shows s) :
    (∃ token t v, take w = (.ok (some token), v) ∧ v.Shows t ∧ Advances true w v ∧
      Parser.take s = .ok (some token, t)) ∨
    (∃ v, take w = (.ok none, v) ∧ v.Shows s ∧ Advances false w v ∧ v.AtEnd ∧ s.tokens = [] ∧
      Parser.take s = .ok (none, s)) ∨
    ∃ error v, take w = (.error error, v) ∧ v.failure = some error ∧
      Parser.take s = .error error := by
  obtain ⟨buffer, l, taken, failure, passages⟩ := w
  obtain ⟨plain, stop⟩ := s
  rw [take, Action.run_bind, Action.run_get]
  dsimp only
  cases buffer with
  | cons token rest =>
    obtain rfl : plain = token :: rest ++ l.stream.tokens := h.tokens
    refine .inl ⟨token, ⟨rest ++ l.stream.tokens, stop⟩, _, rfl, ⟨h.sound, rfl, h.stop⟩,
      ⟨rfl, Nat.le_refl _, ?_, ?_⟩, rfl⟩
    · simp only [left, List.length_cons, Bool.toNat_true]
      omega
    · simp [tokens]
  | nil =>
    dsimp only
    rw [Action.run_bind]
    obtain ⟨token, lexer, hlex, hshorter, hshows⟩ | ⟨lexer, hlex, hle, hend, hshows, htokens⟩ |
      ⟨error, lexer, hlex, htokens, hstop⟩ := lex_cases h
    · rw [hlex]
      have hlength := congrArg List.length (h.tokens.symm.trans hshows.tokens)
      obtain rfl : plain = token :: lexer.stream.tokens := hshows.tokens
      refine .inl ⟨token, ⟨lexer.stream.tokens, stop⟩, _, rfl, ⟨hshows.sound, rfl, hshows.stop⟩,
        ⟨rfl, Nat.le_refl _, ?_, ?_⟩, rfl⟩
      · simp only [left, List.length_nil, Bool.toNat_true]
        dsimp only at hshorter
        omega
      · rw [hlength]
        simp [tokens]
    · rw [hlex]
      obtain rfl : plain = [] := htokens
      obtain rfl : stop = _ := hshows.stop_of_atEnd hend
      have hsame := congrArg List.length (hshows.tokens.symm.trans h.tokens)
      exact .inr (.inl ⟨_, rfl, hshows, ⟨rfl, Nat.le_refl _, Nat.add_le_add_left hle _, hsame.le⟩,
        hend, rfl, rfl⟩)
    · rw [hlex]
      obtain rfl : plain = [] := htokens
      obtain rfl : stop = _ := hstop
      exact .inr (.inr ⟨error, _, rfl, rfl, rfl⟩)

end Watch

end PromptTemplate
