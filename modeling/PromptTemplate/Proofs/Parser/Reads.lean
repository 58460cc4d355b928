import PromptTemplate.Parser

/-!
# What parsers read

`Reads p kinds ahead Q` says that `p` takes tokens of the given kinds off any
stream, if what comes after them is as `ahead` demands, and gives a value with
`Q`. There is a rule for each operation of a parser; a reader of the grammar
is put together from them in the order of its tokens.
-/

namespace PromptTemplate.Parser

variable {α β : Type}

theorem run_bind (p : Parser α) (f : α → Parser β) (s : TokenStream) :
    (p >>= f) s = match p s with
      | .ok (a, t) => f a t
      | .error error => .error error := by
  simp only [bind, StateT.bind, Except.bind]
  cases p s <;> rfl

theorem bind_of_ok {p : Parser α} {f : α → Parser β} {s t : TokenStream} {a : α}
    (h : p s = .ok (a, t)) : (p >>= f) s = f a t := by
  rw [run_bind, h]

theorem discard_bind (p : Parser α) (f : PUnit → Parser β) :
    (discard p >>= f) = p >>= fun _ => f ⟨⟩ := by
  simp [Functor.discard, map_const]

section
variable {token : Token} {tokens : List Token} {stop : Except CompileError Position}

theorem peek_cons : peek ⟨token :: tokens, stop⟩ = .ok (some token, ⟨token :: tokens, stop⟩) := rfl

theorem takeIf_cons (kind : TokenKind) : takeIf kind ⟨token :: tokens, stop⟩ =
    if token.kind = kind then .ok (some token, ⟨tokens, stop⟩)
    else .ok (none, ⟨token :: tokens, stop⟩) := by
  rw [takeIf, bind_of_ok peek_cons]
  dsimp only
  split <;> rfl

end

/-- The kind of the next token is as demanded; none at the end of the text, which
then has to be one. -/
def Ahead (ahead : Option TokenKind → Prop) (s : TokenStream) : Prop :=
  match s.tokens with
  | token :: _ => ahead (some token.kind)
  | [] => ahead none ∧ ∃ position, s.stop = .ok position

/-- What is seen in front of `kinds`. -/
def Seen (ahead : Option TokenKind → Prop) : List TokenKind → Option TokenKind → Prop
  | [], found => ahead found
  | kind :: _, found => found = some kind

def Reads (p : Parser α) (kinds : List TokenKind) (ahead : Option TokenKind → Prop)
    (Q : α → Prop) : Prop :=
  ∀ tokens rest stop, tokens.map Token.kind = kinds → Ahead ahead ⟨rest, stop⟩ →
    ∃ a, Q a ∧ p ⟨tokens ++ rest, stop⟩ = .ok (a, ⟨rest, stop⟩)

variable {ahead ahead' : Option TokenKind → Prop} {kinds more : List TokenKind} {kind : TokenKind}
  {Q R : α → Prop}

theorem Ahead.mono {s : TokenStream} (h : Ahead ahead s) (himp : ∀ k, ahead k → ahead' k) :
    Ahead ahead' s := by
  unfold Ahead at *
  split at h
  · exact himp _ h
  · exact ⟨himp _ h.1, h.2⟩

theorem Ahead.append {tokens rest : List Token} {stop : Except CompileError Position}
    (htokens : tokens.map Token.kind = kinds) (h : Ahead ahead ⟨rest, stop⟩) :
    Ahead (Seen ahead kinds) ⟨tokens ++ rest, stop⟩ := by
  subst htokens
  cases tokens with
  | nil => exact h
  | cons token tokens => exact rfl

namespace Reads

theorem mono {p : Parser α} (h : Reads p kinds ahead' Q) (hahead : ∀ k, ahead k → ahead' k)
    (himp : ∀ a, Q a → R a) : Reads p kinds ahead R := by
  intro tokens rest stop htokens hrest
  obtain ⟨a, ha, hrun⟩ := h tokens rest stop htokens (hrest.mono hahead)
  exact ⟨a, himp a ha, hrun⟩

theorem pure {a : α} (h : Q a) : Reads (Pure.pure a) [] ahead Q := by
  intro tokens rest stop htokens _
  rw [List.map_eq_nil_iff.mp htokens]
  exact ⟨a, h, rfl⟩

theorem bind {p : Parser α} {f : α → Parser β} {R : β → Prop} (hp : Reads p kinds ahead' Q)
    (hahead : ∀ k, Seen ahead more k → ahead' k) (hf : ∀ a, Q a → Reads (f a) more ahead R) :
    Reads (p >>= f) (kinds ++ more) ahead R := by
  intro tokens rest stop htokens hrest
  obtain ⟨first, second, rfl, hfirst, hsecond⟩ := List.map_eq_append_iff.mp htokens
  obtain ⟨a, ha, hp⟩ := hp first (second ++ rest) stop hfirst
    ((hrest.append hsecond).mono hahead)
  obtain ⟨b, hb, hf⟩ := hf a ha second rest stop hsecond hrest
  refine ⟨b, hb, ?_⟩
  rw [List.append_assoc, bind_of_ok hp, hf]

/-- A parser that needs to see nothing beyond its one token. -/
theorem step {p : Parser α} {f : α → Parser β} {R : β → Prop}
    (hp : Reads p [kind] (fun _ => True) Q) (hf : ∀ a, Q a → Reads (f a) kinds ahead R) :
    Reads (p >>= f) (kind :: kinds) ahead R :=
  bind hp (fun _ _ => trivial) hf

/-- A parser that takes nothing. -/
theorem look {p : Parser α} {f : α → Parser β} {R : β → Prop} (hp : Reads p [] ahead' Q)
    (hahead : ∀ k, Seen ahead kinds k → ahead' k) (hf : ∀ a, Q a → Reads (f a) kinds ahead R) :
    Reads (p >>= f) kinds ahead R :=
  bind hp hahead hf

/-- What follows takes nothing. -/
theorem last {p : Parser α} {f : α → Parser β} {R : β → Prop} (hp : Reads p kinds ahead' Q)
    (hahead : ∀ k, ahead k → ahead' k) (hf : ∀ a, Q a → Reads (f a) [] ahead R) :
    Reads (p >>= f) kinds ahead R :=
  List.append_nil kinds ▸ bind hp hahead hf

-- ---------------------------------------------------------------------------
-- The operations
-- ---------------------------------------------------------------------------

theorem of_token {p : Parser α} (h : ∀ span rest stop, ∃ a, Q a ∧
    p ⟨⟨kind, span⟩ :: rest, stop⟩ = .ok (a, ⟨rest, stop⟩)) : Reads p [kind] ahead Q := by
  intro tokens rest stop htokens _
  obtain ⟨token, rfl, rfl⟩ := List.map_eq_singleton_iff.mp htokens
  exact h token.span rest stop

theorem of_none {p : Parser α} (h : ∀ s, Ahead ahead s → ∃ a, Q a ∧ p s = .ok (a, s)) :
    Reads p [] ahead Q := by
  intro tokens rest stop htokens hrest
  rw [List.map_eq_nil_iff.mp htokens]
  exact h _ hrest

theorem take : Reads Parser.take [kind] ahead fun found => ∃ span, found = some ⟨kind, span⟩ :=
  of_token fun span _ _ => ⟨_, ⟨span, rfl⟩, rfl⟩

theorem takeRequired {expected : String} :
    Reads (Parser.takeRequired expected) [kind] ahead (·.kind = kind) :=
  of_token fun _ _ _ => ⟨_, rfl, rfl⟩

theorem expectClose : Reads Parser.expectClose [.mustacheClose] ahead fun _ => True :=
  of_token fun _ _ _ => ⟨_, trivial, rfl⟩

theorem name {word : String} : Reads Parser.name [.identifier word] ahead (·.1 = word) :=
  of_token fun _ _ _ => ⟨_, rfl, rfl⟩

theorem takeIf : Reads (Parser.takeIf kind) [kind] ahead fun found => found.isSome := by
  refine of_token fun span rest stop => ⟨some ⟨kind, span⟩, rfl, ?_⟩
  rw [takeIf_cons, if_pos rfl]

theorem peek : Reads Parser.peek [] ahead fun found => ahead (found.map Token.kind) := by
  refine of_none fun s hs => ?_
  obtain ⟨tokens, stop⟩ := s
  cases tokens with
  | nil =>
    obtain ⟨hnone, position, hstop⟩ := hs
    dsimp only at hstop
    subst hstop
    exact ⟨none, hnone, rfl⟩
  | cons token tokens => exact ⟨some token, hs, rfl⟩

theorem peekKind : Reads Parser.peekKind [] ahead ahead :=
  look peek (fun _ => id) fun _ h => pure h

theorem takeIf_none : Reads (Parser.takeIf kind) [] (· ≠ some kind) (· = none) := by
  refine look peek (fun _ => id) fun found hfound => ?_
  cases found with
  | none => exact pure rfl
  | some token =>
    have hkind : token.kind ≠ kind := fun h => hfound (congrArg some h)
    simp only [hkind, if_false]
    exact pure rfl

theorem takeSymbol {symbol : Symbol} :
    Reads (Parser.takeSymbol symbol) [.symbol symbol] ahead fun found => found.isSome :=
  takeIf

theorem takeSymbol_none {symbol : Symbol} :
    Reads (Parser.takeSymbol symbol) [] (· ≠ some (.symbol symbol)) (· = none) :=
  takeIf_none

theorem takeWord {word : String} :
    Reads (Parser.takeWord word) [.identifier word] (fun _ => True) (· = true) :=
  step takeIf fun _ h => pure h

theorem takeWord_none {word : String} :
    Reads (Parser.takeWord word) [] (· ≠ some (.identifier word)) (· = false) :=
  look takeIf_none (fun _ => id) fun _ h => pure (by rw [h]; rfl)

theorem expectSymbol {symbol : Symbol} :
    Reads (Parser.expectSymbol symbol) [.symbol symbol] (fun _ => True) fun _ => True := by
  refine step takeSymbol fun found hfound => ?_
  cases found with
  | none => cases hfound
  | some token => exact pure trivial

/-- The number that bounds repetitions is above that of the tokens to come. -/
theorem budget_bind {f : Nat → Parser α} (hf : ∀ n, kinds.length < n → Reads (f n) kinds ahead Q) :
    Reads (Parser.budget >>= f) kinds ahead Q := by
  intro tokens rest stop htokens hrest
  have hlength : kinds.length < (tokens ++ rest).length + 1 := by
    rw [← htokens, List.length_map, List.length_append]
    omega
  exact hf _ hlength tokens rest stop htokens hrest

end Reads

end PromptTemplate.Parser
