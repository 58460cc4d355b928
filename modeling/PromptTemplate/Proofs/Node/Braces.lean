import PromptTemplate.Proofs.Expr.Complete
import PromptTemplate.Proofs.Expr.Nests
import PromptTemplate.Proofs.Expr.Phrased
import PromptTemplate.Proofs.Parser.Shares
import PromptTemplate.Proofs.Syntax.Unclosed

/-!
# Readers in braces and tags over the same tokens

Two streams have the same tokens up to a place in a text. So in front of the
place a brace or a tag that is open is closed, and what is read in it is the
same in both streams: an expression and a pattern end at the latest in front of
the brace, the attributes of a tag with its end.
-/

namespace PromptTemplate

open PromptTemplate.Parser

/-- There are at most `n` tokens up to the place. The lexer is in these modes in front of them and
in text behind, and they leave `final` open if `stack` is. -/
structure Awaits (final : List Construct) (n : Nat) (modes : List Mode) (stack : List Construct)
    (ts : List Token) : Prop where
  length : ts.length ≤ n
  toText : ToText modes ts
  unclosed : Construct.unclosed (ts.map Token.kind) stack = final

/-- The same in braces, however many are open there. -/
def InBraces (final : List Construct) (n : Nat) (outer : List Mode) (stack : List Construct)
    (ts : List Token) : Prop :=
  ∃ depth, Awaits final n (.expression depth :: outer) stack ts

section
variable {final stack stack' : List Construct} {n k : Nat} {modes modes' outer : List Mode}
  {token : Token} {ts more : List Token}

theorem Awaits.mono (h : Awaits final k modes stack ts) (hle : k ≤ n) :
    Awaits final n modes stack ts :=
  { h with length := Nat.le_trans h.length hle }

theorem Awaits.tail (h : Awaits final n modes stack (token :: more))
    (hshift : Shift modes token.kind modes')
    (hstack : Construct.unclosed (token.kind :: more.map Token.kind) stack =
      Construct.unclosed (more.map Token.kind) stack') :
    ∃ k < n, Awaits final k modes' stack' more :=
  ⟨more.length, h.length, Nat.le_refl _, h.toText.tail hshift, hstack ▸ h.unclosed⟩

theorem InBraces.mono (h : InBraces final k outer stack ts) (hle : k ≤ n) :
    InBraces final n outer stack ts := by
  obtain ⟨depth, h⟩ := h
  exact ⟨depth, h.mono hle⟩

theorem InBraces.ne_nil (h : InBraces final n outer stack ts) : ts ≠ [] := by
  obtain ⟨depth, h⟩ := h
  exact h.toText.ne_nil

theorem InBraces.tail (h : InBraces final n outer stack (token :: more))
    (hkind : token.kind ≠ .mustacheClose) : ∃ k < n, InBraces final k outer stack more := by
  obtain ⟨depth, h⟩ := h
  obtain ⟨modes, hshift, -⟩ := h.toText
  obtain ⟨hinert, ⟨hclose, -⟩ | ⟨-, depth', rfl⟩⟩ := hshift.in_braces
  · exact absurd hclose hkind
  · obtain ⟨k, hk, hmore⟩ := h.tail hshift (Construct.unclosed_inert hinert _ _)
    exact ⟨k, hk, depth', hmore⟩

theorem InBraces.close {place : Span}
    (h : InBraces final n outer stack (⟨.mustacheClose, place⟩ :: more)) :
    ∃ k < n, Awaits final k outer stack more := by
  obtain ⟨depth, h⟩ := h
  obtain ⟨modes, hshift, -⟩ := h.toText
  obtain ⟨hinert, ⟨-, rfl⟩ | ⟨hkind, -⟩⟩ := hshift.in_braces
  · exact h.tail hshift (Construct.unclosed_inert hinert _ _)
  · exact absurd rfl hkind

/-- Words of an expression stay in the braces. -/
theorem InBraces.words (h : InBraces final n outer stack (ts ++ more))
    (hwords : ∀ token ∈ ts, token.kind.isWord) : InBraces final n outer stack more := by
  induction ts generalizing n with
  | nil => exact h
  | cons token ts ih =>
    obtain ⟨htoken, hwords⟩ := List.forall_mem_cons.1 hwords
    have hkind : token.kind ≠ .mustacheClose := fun hkind => by
      rw [hkind] at htoken
      cases htoken
    obtain ⟨k, hk, hmore⟩ := InBraces.tail h hkind
    exact (ih hmore hwords).mono (Nat.le_of_lt hk)

end

variable {F : Fork} {halt : Prop} {final stack enclosing : List Construct} {n k b b' : Nat}
  {outer : List Mode} {α β : Type} {post : β → List Token → Prop}

theorem Parser.Shares.below {pre : List Token → Prop} {P : Nat → List Token → Prop} {p q : Parser β}
    (hpre : ∀ ts, pre ts → ∃ k < n, P k ts) (h : ∀ k < n, Shares F halt (P k) p q post) :
    Shares F halt pre p q post := by
  intro ts hts
  obtain ⟨k, hk, hP⟩ := hpre ts hts
  exact h k hk ts hP

-- ---------------------------------------------------------------------------
-- Expressions
-- ---------------------------------------------------------------------------

/-- What comes behind an expression in a document. -/
def EndsExpression (s : TokenStream) : Prop :=
  ∃ token ∈ s.tokens.head?, token.kind = .mustacheClose ∨ token.kind = .identifier "as"

/-- An expression does not reach the place, as there is a brace to close. -/
theorem Expr.parser_shares {f g : Expr → Parser β}
    (hends : ∀ value s r, f value s = .ok r → EndsExpression s)
    (hf : ∀ value, Shares F halt (InBraces final n outer stack) (f value) (g value) post) :
    Shares F halt (InBraces final n outer stack) (Expr.parser >>= f) (Expr.parser >>= g) post := by
  intro ts hts
  rw [run_bind]
  cases hread : Expr.parser (F.first.prepend ts) with
  | error e => exact .failed
  | ok found =>
  obtain ⟨value, s⟩ := found
  dsimp only
  cases hrun : f value s with
  | error e => exact .failed
  | ok r =>
  obtain ⟨words, htokens, hstop, hphrase⟩ := Expr.parser_makes _ _ _ trivial hread
  rw [TokenStream.prepend, List.append_eq_append_iff] at htokens
  have hwords := hphrase.nests.words
  obtain ⟨more, rfl, -⟩ | ⟨more, rfl, hmore⟩ := htokens
  · have hnil : InBraces final n outer stack [] :=
      InBraces.words ((List.append_nil ts).symm ▸ hts) fun token htoken =>
        hwords token (List.mem_append_left _ htoken)
    exact absurd rfl hnil.ne_nil
  · have hbraces := hts.words hwords
    obtain ⟨tokens, stop⟩ := s
    obtain rfl : tokens = more ++ F.first.tokens := hmore
    obtain rfl : stop = F.first.stop := hstop
    obtain ⟨next, more, rfl⟩ := List.exists_cons_of_ne_nil hbraces.ne_nil
    have hafter : After 0 (some next.kind) := by
      obtain ⟨token, htoken, hkind⟩ := hends value _ r hrun
      obtain rfl : next = token := Option.some.inj htoken
      rcases hkind with hkind | hkind <;> exact hkind ▸ .of_none rfl
    have hsecond : Expr.parser (F.second.prepend (words ++ next :: more)) =
        .ok (value, F.second.prepend (next :: more)) := by
      rw [TokenStream.prepend, List.append_assoc]
      exact hphrase.read _ _ hafter
    rw [← hrun, bind_of_ok hsecond]
    exact hf value _ hbraces

-- ---------------------------------------------------------------------------
-- Tokens in braces
-- ---------------------------------------------------------------------------

namespace InBraces

theorem takeSymbol_bind {symbol : Symbol} {f g : Option Token → Parser β}
    (hnone : Shares F halt (InBraces final n outer stack) (f none) (g none) post)
    (hsome : ∀ found, ∀ k < n, Shares F halt (InBraces final k outer stack) (f (some found))
      (g (some found)) post) :
    Shares F halt (InBraces final n outer stack) (takeSymbol symbol >>= f) (takeSymbol symbol >>= g)
      post :=
  .takeSymbol_bind (fun _ => ne_nil) hnone fun _ => .below (fun _ h => h.tail nofun) (hsome _)

theorem expectSymbol_bind {symbol : Symbol} {f g : Token → Parser β}
    (hf : ∀ found, ∀ k < n, Shares F halt (InBraces final k outer stack) (f found) (g found) post) :
    Shares F halt (InBraces final n outer stack) (expectSymbol symbol >>= f)
      (expectSymbol symbol >>= g) post :=
  .expectSymbol_bind (fun _ => ne_nil) fun _ => .below (fun _ h => h.tail nofun) (hf _)

theorem name_bind {f g : String × Span → Parser β}
    (hf : ∀ found, ∀ k < n, Shares F halt (InBraces final k outer stack) (f found) (g found) post) :
    Shares F halt (InBraces final n outer stack) (Parser.name >>= f) (Parser.name >>= g) post :=
  .name_bind (fun _ => ne_nil) fun _ _ => .below (fun _ h => h.tail nofun) (hf _)

theorem expectClose_bind {f g : Span → Parser β}
    (hf : ∀ place, ∀ k < n, Shares F halt (Awaits final k outer stack) (f place) (g place) post) :
    Shares F halt (InBraces final n outer stack) (expectClose >>= f) (expectClose >>= g) post :=
  .expectClose_bind (fun _ => ne_nil) fun _ => .below (fun _ => close) (hf _)

/-- An expression and the brace behind it. -/
theorem expr_bind {f g : Expr → Span → Parser β}
    (hf : ∀ value place, ∀ k < n, Shares F halt (Awaits final k outer stack) (f value place)
      (g value place) post) :
    Shares F halt (InBraces final n outer stack)
      (Expr.parser >>= fun value => expectClose >>= f value)
      (Expr.parser >>= fun value => expectClose >>= g value) post := by
  refine Expr.parser_shares (fun value s r hrun => ?_) fun value => expectClose_bind (hf value)
  obtain ⟨_ | ⟨⟨kind, place⟩, tokens⟩, stop⟩ := s
  · cases stop <;> cases hrun
  · by_cases hkind : kind = .mustacheClose
    · exact ⟨_, rfl, .inl hkind⟩
    · rw [expectClose, bind_assoc, bind_of_ok (show takeRequired _ _ = .ok (⟨kind, place⟩, _) from rfl)]
        at hrun
      simp only [if_neg hkind] at hrun
      cases hrun

end InBraces

-- ---------------------------------------------------------------------------
-- Patterns
-- ---------------------------------------------------------------------------

namespace Pattern

section
variable {nested nested' : Parser Pattern}
  (hnested : ∀ k < n, Shares F False (InBraces final k outer stack) nested nested'
    fun _ => InBraces final k outer stack)
include hnested

theorem entries_shares (hk : k < n) (hb' : k < b') :
    Shares F False (InBraces final k outer stack) (entries nested b) (entries nested' b')
      fun _ => InBraces final k outer stack := by
  induction b generalizing k b' with
  | zero => exact .failAtEnd
  | succ b ih =>
    obtain _ | b' := b'
    · contradiction
    rw [entries, entries]
    simp only [discard_bind]
    refine InBraces.takeSymbol_bind ?_ fun _ j hj => .pure fun _ h => h.mono (by omega)
    refine InBraces.name_bind fun key j hj => ?_
    have hmore (binding : Pattern) {i : Nat} (hi : i < k) :
        Shares F False (InBraces final i outer stack)
          (do
            if (← takeSymbol .comma).isSome then
              return (⟨key.1, key.2⟩, binding) :: (← entries nested b)
            let _ ← expectSymbol .braceClose
            return [(⟨key.1, key.2⟩, binding)])
          (do
            if (← takeSymbol .comma).isSome then
              return (⟨key.1, key.2⟩, binding) :: (← entries nested' b')
            let _ ← expectSymbol .braceClose
            return [(⟨key.1, key.2⟩, binding)])
          fun _ => InBraces final k outer stack := by
      refine InBraces.takeSymbol_bind ?_ fun _ l hl => ?_
      · exact InBraces.expectSymbol_bind fun _ l hl => .pure fun _ h => h.mono (by omega)
      · exact .map (ih (by omega) (by omega)) fun _ _ h => h.mono (by omega)
    refine InBraces.takeSymbol_bind (hmore _ hj) fun _ i hi => ?_
    exact .bind (hnested i (by omega)) fun binding => hmore binding (by omega)

theorem items_shares (hk : k < n) (hb' : k < b') :
    Shares F False (InBraces final k outer stack) (items nested b) (items nested' b')
      fun _ => InBraces final k outer stack := by
  induction b generalizing k b' with
  | zero => exact .failAtEnd
  | succ b ih =>
    obtain _ | b' := b'
    · contradiction
    rw [items, items]
    simp only [discard_bind]
    refine InBraces.takeSymbol_bind ?_ fun _ j hj => .pure fun _ h => h.mono (by omega)
    refine .bind (hnested k hk) fun first => InBraces.takeSymbol_bind ?_ fun _ j hj => ?_
    · exact InBraces.expectSymbol_bind fun _ j hj => .pure fun _ h => h.mono (by omega)
    · exact .map (ih (by omega) (by omega)) fun _ _ h => h.mono (by omega)

end

theorem patterns_shares (hb' : n < b') :
    Shares F False (InBraces final n outer stack) (patterns b) (patterns b')
      fun _ => InBraces final n outer stack := by
  induction b generalizing n b' with
  | zero => exact .failAtEnd
  | succ b ih =>
    obtain _ | b' := b'
    · contradiction
    have hnested : ∀ k < n, Shares F False (InBraces final k outer stack) (patterns b) (patterns b')
        fun _ => InBraces final k outer stack := fun k hk => ih (by omega)
    rw [patterns, patterns]
    refine .takeRequired_bind (fun _ => InBraces.ne_nil) fun token => ?_
    obtain ⟨kind, place⟩ := token
    dsimp only
    split
    · refine .pure fun _ h => ?_
      obtain ⟨k, hk, h⟩ := h.tail nofun
      exact h.mono (Nat.le_of_lt hk)
    · refine .below (fun _ h => h.tail nofun) fun k hk => ?_
      exact .map (entries_shares hnested hk (by omega)) fun _ _ h => h.mono (Nat.le_of_lt hk)
    · refine .below (fun _ h => h.tail nofun) fun k hk => ?_
      exact .map (items_shares hnested hk (by omega)) fun _ _ h => h.mono (Nat.le_of_lt hk)
    · exact .fail

theorem parser_shares : Shares F False (InBraces final n outer stack) parser parser
    fun _ => InBraces final n outer stack := by
  intro ts hts
  have hlength : ts.length < (F.second.prepend ts).tokens.length + 1 := by
    simp only [TokenStream.prepend, List.length_append]
    omega
  obtain ⟨depth, hts⟩ := hts
  exact (patterns_shares hlength).mono (fun _ => id) (fun _ _ h => h.mono hts.length) ts
    ⟨depth, { hts with length := Nat.le_refl _ }⟩

end Pattern

-- ---------------------------------------------------------------------------
-- Attributes
-- ---------------------------------------------------------------------------

namespace Attribute

theorem valueParser_shares : Shares F False (Awaits final n [.tag] stack) valueParser valueParser
    fun _ => Awaits final n [.tag] stack := by
  have hne : ∀ ts, Awaits final n [.tag] stack ts → ts ≠ [] := fun _ h => h.toText.ne_nil
  rw [valueParser]
  simp only [discard_bind]
  refine .takeSymbol_bind hne (.pure fun _ => id) fun place => ?_
  refine .below (fun _ h => h.tail (.word rfl) rfl) fun k hk => ?_
  refine .take_bind (fun _ h => h.toText.ne_nil) fun ⟨kind, place⟩ => ?_
  cases kind with
  | attributeValue text =>
    refine .pure fun _ h => ?_
    obtain ⟨j, hj, h⟩ := h.tail (.word rfl) rfl
    exact h.mono (by omega)
  | mustacheOpen =>
    refine .below (P := fun j => InBraces final j [.tag] stack) (n := k) (fun _ h => ?_) fun j hj => ?_
    · obtain ⟨j, hj, h⟩ := h.tail (.opening rfl (.inr rfl)) rfl
      exact ⟨j, hj, 0, h⟩
    · exact InBraces.expr_bind fun value place i hi => .pure fun _ h => h.mono (by omega)
  | _ => exact .fail

/-- Behind the end of a tag, the tag is open unless it has closed itself. -/
theorem list_shares {name : String} (hb' : n < b') (earlier : List Attribute) :
    Shares F False (Awaits final n [.tag] (.tag name :: enclosing)) (list b earlier) (list b' earlier)
      fun r => Awaits final n []
        (if r.2.selfClosing then enclosing else .tag name :: enclosing) := by
  induction b generalizing n b' earlier with
  | zero => exact .failAtEnd
  | succ b ih =>
    obtain _ | b' := b'
    · contradiction
    rw [list, list]
    refine .takeRequired_bind (fun _ h => h.toText.ne_nil) fun ⟨kind, place⟩ => ?_
    cases kind with
    | attributeName found =>
      refine .ite (fun _ => .fail) fun _ => .below (fun _ h => h.tail (.word rfl) rfl) fun k hk => ?_
      refine .bind valueParser_shares fun value => (ih (by omega) _).mono (fun _ => id) fun _ _ h => ?_
      exact h.mono (Nat.le_of_lt hk)
    | tagEnd | tagSelfClose =>
      refine .pure fun _ h => ?_
      obtain ⟨k, hk, h⟩ := h.tail (.tagEnd rfl) rfl
      exact h.mono (Nat.le_of_lt hk)
    | _ => exact .fail

theorem checkLiteral_shares {pre : List Token → Prop} (attributes : List Attribute)
    (names : List String) : Shares F False pre (checkLiteral attributes names)
      (checkLiteral attributes names) fun _ => pre := by
  induction names with
  | nil => exact .pure fun _ => id
  | cons name names ih =>
    rw [checkLiteral]
    split
    · exact .fail
    · exact ih

end Attribute

end PromptTemplate
