import PromptTemplate.Proofs.Document.Stream
import PromptTemplate.Proofs.Node.Paired
import PromptTemplate.Proofs.Token.Embedded

/-!
# Expressions with and without braces

A text that is read as an expression on its own is read as the same expression
between the braces of a document, one place further on
(`parseDocument_braces`).
-/

namespace PromptTemplate

-- ---------------------------------------------------------------------------
-- Places behind a brace
-- ---------------------------------------------------------------------------

/-- Behind a brace at the start of the text. The columns of the other lines stay as they are. -/
def Span.behindBrace (s : Span) : Span :=
  ⟨s.start + 1, s.stop + 1, s.line, if s.line = 1 then s.column + 1 else s.column⟩

def Position.behindBrace (p : Position) : Position :=
  ⟨p.offset + 1, p.line, if p.line = 1 then p.column + 1 else p.column⟩

theorem Span.behindBrace_join (first last : Span) :
    (first.join last).behindBrace = first.behindBrace.join last.behindBrace := by
  simp only [join, behindBrace, Nat.add_max_add_right]
  rfl

/-- Lines are counted from one. -/
theorem Position.behindBrace_after {p : Position} (h : 1 ≤ p.line) (c : Char) :
    (p.after c).behindBrace = p.behindBrace.after c := by
  unfold behindBrace after
  by_cases hc : c = '\n'
  · have hline : p.line + 1 ≠ 1 := by omega
    simp only [if_pos hc, if_neg hline, Nat.add_right_comm]
  · simp only [if_neg hc, Nat.add_right_comm]
    split <;> rfl

def behindBrace : Motion where
  Positions p q := 1 ≤ p.line ∧ q = p.behindBrace
  Spans s s' := s' = s.behindBrace
  after := by
    rintro p _ c ⟨h, rfl⟩
    refine ⟨?_, (Position.behindBrace_after h c).symm⟩
    unfold Position.after
    split
    · exact Nat.le_add_left ..
    · exact h
  between := by
    rintro p _ p' _ ⟨-, rfl⟩ ⟨-, rfl⟩
    rfl

/-- The pairing with a stream behind a brace that goes on with a closing one. -/
def closingPairing (place : Span) (stop : Position) : Parser.Pairing where
  span := Span.behindBrace
  join := Span.behindBrace_join
  Errors _ _ := True
  Closing s := s = ⟨[⟨.mustacheClose, place⟩], .ok stop⟩
  Read _ s := (∀ token ∈ s.tokens, token.kind ≠ .mustacheClose) ∧ ∃ p, s.stop = .ok p
  strict := False
  errors _ _ _ := trivial
  closed _ _ _ _ := trivial
  tail h _ := ⟨fun token htoken => h.1 token (List.mem_cons_of_mem _ htoken), h.2⟩
  shift h := h.elim

namespace Lexer

variable {depth : Nat}

-- ---------------------------------------------------------------------------
-- Tokens
-- ---------------------------------------------------------------------------

/-- The tokens of an expression are followed by one for a closing brace behind it, if its own
braces are closed. -/
theorem stream_append_brace {l : Lexer} (hmodes : l.modes = [.expression depth])
    (hpending : l.configPending = false) (hstop : ∃ q, l.stream.stop = .ok q)
    (hclose : ∀ token ∈ l.stream.tokens, token.kind ≠ .mustacheClose)
    (hbraces : depth + (l.stream.tokens.map Token.kind).count (.symbol .braceOpen) =
      (l.stream.tokens.map Token.kind).count (.symbol .braceClose)) :
    ∃ place q, (⟨l.rest ++ ['}'], l.position, l.modes, false⟩ : Lexer).stream =
      ⟨l.stream.tokens ++ [⟨.mustacheClose, place⟩], .ok q⟩ := by
  let p := l.position.afterAll l.rest
  have hbrace : Emits ⟨['}'], p, [.expression 0], false⟩
      [⟨.mustacheClose, .between p (p.after '}')⟩] ⟨[], p.after '}', [], false⟩ :=
    .cons rfl Nat.one_pos .nil
  have hemits := emits_embedded hmodes hpending hstop hclose hbraces rfl (List.cons_ne_nil _ _) hbrace
  exact ⟨_, _, hemits.stream (n := ⟨[], p.after '}', [], false⟩) rfl⟩

theorem document_stream_brace {text : String} (h : Mustache text.toList) :
    (document ("\x7b" ++ text ++ "\x7d")).stream =
      let inner : Lexer := ⟨text.toList ++ ['}'], Position.start.after '{', [.expression 0], false⟩
      ⟨⟨.mustacheOpen, .between .start (Position.start.after '{')⟩ :: inner.stream.tokens,
        inner.stream.stop⟩ := by
  have htext : ("\x7b" ++ text ++ "\x7d").toList = '{' :: (text.toList ++ ['}']) := by
    simp
  have hconfig : (document ("\x7b" ++ text ++ "\x7d")).config? = none := by
    rw [document, htext]
    exact config?_none (by decide) (by decide)
  have hmustache : Mustache (text.toList ++ ['}']) := by
    intro c hc
    cases hcs : text.toList with
    | nil =>
      rw [hcs] at hc
      obtain rfl := Option.some.inj hc
      decide
    | cons d cs =>
      rw [hcs] at hc
      exact h c (by rwa [hcs])
  rw [document_stream hconfig, htext]
  exact stream_of_token (mustache_opens.2 _ _ hmustache)

end Lexer

-- ---------------------------------------------------------------------------
-- Parsing
-- ---------------------------------------------------------------------------

open PromptTemplate.Parser

/-- The text is this expression as a whole. -/
def Expr.ReadsAs (text : String) (e : Expr) : Prop :=
  ∃ s, Expr.parser (Lexer.expression text).stream = .ok (e, s) ∧ s.tokens = []

/-- What stands behind the expression of an interpolation that starts here. -/
def Node.mustacheEnd (start : Span) (budget : Nat) (value : Expr) : Parser (List Node) := do
  let last ← expectClose
  return .mustache (start.join last) value :: (← Node.list budget [])

theorem Document.parser_of_mustache (start : Span) (s : TokenStream) :
    Document.parser ⟨⟨.mustacheOpen, start⟩ :: s.tokens, s.stop⟩ =
      (Expr.parser >>= Node.mustacheEnd start (s.tokens.length + 1) >>= fun nodes =>
        pure ⟨nodes⟩) s := by
  rw [Document.parser_of_plain (by rintro _ ⟨⟩ _ ⟨⟩)]
  rfl

/-- The closing brace comes next. -/
theorem Node.mustacheEnd_ok {start : Span} {budget : Nat} {value : Expr} {s t : TokenStream}
    {nodes : List Node} (h : Node.mustacheEnd start budget value s = .ok (nodes, t)) :
    ∃ place more, s.tokens = ⟨.mustacheClose, place⟩ :: more ∧
      nodes.head? = some (.mustache (start.join place) value) := by
  obtain ⟨tokens, stop⟩ := s
  cases tokens with
  | nil => cases stop <;> cases h
  | cons token more =>
    obtain ⟨kind, place⟩ := token
    cases kind with
    | mustacheClose =>
      refine ⟨place, more, rfl, ?_⟩
      have hclose : expectClose ⟨⟨.mustacheClose, place⟩ :: more, stop⟩ =
          .ok (place, ⟨more, stop⟩) := rfl
      rw [mustacheEnd, bind_of_ok hclose, run_bind] at h
      split at h <;> cases h
      rfl
    | _ => cases h

section
variable {text : String} (hfirst : Lexer.Mustache text.toList)
  (hstop : ∃ q, (Lexer.expression text).stream.stop = .ok q)
  (hclose : ∀ token ∈ (Lexer.expression text).stream.tokens, token.kind ≠ .mustacheClose)
  (hbraces : ((Lexer.expression text).stream.tokens.map Token.kind).count (.symbol .braceOpen) =
    ((Lexer.expression text).stream.tokens.map Token.kind).count (.symbol .braceClose))
include hstop hclose hbraces

/-- The stream behind an opening brace. -/
theorem linked_closing :
    let inner : Lexer := ⟨text.toList ++ ['}'], Position.start.after '{', [.expression 0], false⟩
    ∃ place q, (closingPairing place q).At [.expression 0] (Lexer.expression text).stream.tokens.length
      (Lexer.expression text).stream inner.stream := by
  have hstart : behindBrace.Lexers (Lexer.expression text)
      ⟨text.toList, Position.start.after '{', [.expression 0], false⟩ :=
    ⟨rfl, rfl, rfl, Nat.le_refl 1, rfl⟩
  have hstreams := hstart.stream rfl
  have hmap := hstreams.tokens_eq_map (fun h => h)
  obtain ⟨place, q, hinner⟩ := @Lexer.stream_append_brace 0 _ rfl rfl (hstreams.stop_ok_iff.2 hstop)
    (by
      rw [hmap]
      exact List.forall_mem_map.2 hclose)
    (by rw [hstreams.kinds, hbraces, Nat.zero_add])
  refine ⟨place, q, ⟨hclose, hstop⟩, Nat.le_refl _, ⟨[⟨.mustacheClose, place⟩], .ok q⟩, ?_, ?_⟩
  · obtain ⟨p, hp⟩ := hstop
    rw [hp]
    exact .closed rfl
  · rw [hmap] at hinner
    exact hinner

/-- Between braces a text is read as the expression that it is on its own, behind the brace; and if
it is not one as a whole, it is no interpolation. -/
theorem parseDocument_braces (hfirst : Lexer.Mustache text.toList) :
    (∀ e, Expr.ReadsAs text e → ∃ span, parseDocument ("\x7b" ++ text ++ "\x7d") =
      .ok ⟨[.mustache span (e.mapSpans Span.behindBrace)]⟩) ∧
    ∀ span value, parseDocument ("\x7b" ++ text ++ "\x7d") = .ok ⟨[.mustache span value]⟩ →
      ∃ e, Expr.ReadsAs text e ∧ parseExpression text = .ok e ∧
        value = e.mapSpans Span.behindBrace := by
  obtain ⟨place, q, hlinked⟩ := linked_closing hstop hclose hbraces
  have hparsed := Expr.parser_paired _ _ hlinked
  have hdocument : parseDocument ("\x7b" ++ text ++ "\x7d") = _ :=
    congrArg (Prod.fst <$> Document.parser ·) (Lexer.document_stream_brace hfirst)
  rw [hdocument, Document.parser_of_mustache, run_bind, run_bind]
  unfold Expr.ReadsAs parseExpression
  rw [StateT.run]
  generalize Expr.parser (Lexer.expression text).stream = alone at *
  generalize hinner : Expr.parser (Lexer.stream _) = inner at *
  cases hparsed with
  | error => exact ⟨nofun, nofun⟩
  | @ok e value s t hmade =>
    obtain ⟨rfl, hlinked⟩ := hmade
    refine ⟨?_, fun span value h => ?_⟩
    · rintro _ ⟨_, ⟨⟩, hend⟩
      obtain ⟨stop, u, hu, rfl, rfl⟩ | ⟨_, _, _, _, _, rfl, -⟩ := hlinked.cases
      · obtain ⟨-, p, hp⟩ := hlinked.read
        cases hu with
        | error => cases hp
        | ok hopen => exact absurd rfl (hopen _)
        | closed hclosing =>
          cases hclosing
          exact ⟨_, rfl⟩
      · cases hend
    · dsimp only at h
      generalize hnodes : Node.mustacheEnd _ _ _ t = result at h
      rcases result with _ | ⟨nodes, t'⟩
      · cases h
      · obtain ⟨place, more, htokens, hhead⟩ := Node.mustacheEnd_ok hnodes
        cases h
        cases hhead
        refine ⟨e, ⟨s, rfl, ?_⟩, rfl, rfl⟩
        -- a token of the text that is left would be the closing brace
        obtain ⟨stop, u, hu, rfl, rfl⟩ | ⟨token, _, _, _, _, rfl, rfl, -⟩ := hlinked.cases
        · rfl
        · have hkind := hlinked.read.1 token (List.mem_cons_self ..)
          exact absurd (congrArg Token.kind (List.cons.inj htokens).1) hkind

end

/-- The braces of an object are not the ones of the interpolation. -/
theorem parseDocument_braces_object :
    let text := "f(\x7ba: b\x7d)\n+ c"
    ∃ e span, parseExpression text = .ok e ∧ parseDocument ("\x7b" ++ text ++ "\x7d") =
      .ok ⟨[.mustache span (e.mapSpans Span.behindBrace)]⟩ := by
  intro text
  have hend : (Expr.parser (Lexer.expression text).stream).toOption.map (·.2.tokens.isEmpty) =
      some true := by
    decide +kernel
  have hstop : (Lexer.expression text).stream.stop.toOption = some ⟨13, 2, 4⟩ := by decide +kernel
  have hstop : ∃ q, (Lexer.expression text).stream.stop = .ok q := by
    cases hrun : (Lexer.expression text).stream.stop with
    | error e =>
      rw [hrun] at hstop
      cases hstop
    | ok q => exact ⟨q, rfl⟩
  have hfirst : text.toList.head? = some 'f' := by decide +kernel
  obtain ⟨hwhole, -⟩ := @parseDocument_braces text hstop (by decide +kernel) (by decide +kernel)
    fun c hc => by
      rw [hfirst] at hc
      cases hc
      decide
  cases hparse : Expr.parser (Lexer.expression text).stream with
  | error e =>
    rw [hparse] at hend
    cases hend
  | ok found =>
    rw [hparse] at hend
    obtain ⟨span, hdocument⟩ := hwhole found.1
      ⟨found.2, hparse, List.isEmpty_iff.1 (Option.some.inj hend)⟩
    exact ⟨found.1, span, congrArg (Prod.fst <$> ·) hparse, hdocument⟩

end PromptTemplate
