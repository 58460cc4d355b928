import PromptTemplate.Proofs.Document.Standalone
import PromptTemplate.Proofs.Expr.Nests
import PromptTemplate.Proofs.Expr.Paired
import PromptTemplate.Proofs.Expr.Phrased
import PromptTemplate.Proofs.Syntax.Erase
import PromptTemplate.Proofs.Token.Moved

/-!
# Texts that are one expression

A text is an expression as a whole if it can be read to its end and its tokens
are a phrase (`Expr.readsAs_iff`). In parentheses it is an operand.
-/

/-! ## Phrases at other places

Tokens at other places are a phrase if they are one where they stand, of the
same expression at those places (`Phrase.moved_iff`). So what is a phrase
depends on the kinds of the tokens alone (`Phrase.of_kinds`). -/

namespace PromptTemplate

open PromptTemplate.Parser

-- ---------------------------------------------------------------------------
-- All places the same
-- ---------------------------------------------------------------------------

mutual

theorem Expr.mapSpans_nowhere : (e : Expr) → e.mapSpans (fun _ => .nowhere) = e.erase
  | .literal _ _ | .identifier _ _ => rfl
  | .member _ object property _ => by
    rw [Expr.mapSpans, Expr.erase, object.mapSpans_nowhere, property.mapSpans_nowhere]
  | .array _ elements => by rw [Expr.mapSpans, Expr.erase, Element.mapSpansAll_nowhere elements]
  | .object _ entries => by rw [Expr.mapSpans, Expr.erase, Entry.mapSpansAll_nowhere entries]
  | .call _ callee arguments => by
    rw [Expr.mapSpans, Expr.erase, callee.mapSpans_nowhere, Element.mapSpansAll_nowhere arguments]
  | .unary _ _ operand => by rw [Expr.mapSpans, Expr.erase, operand.mapSpans_nowhere]
  | .binary _ _ left right => by
    rw [Expr.mapSpans, Expr.erase, left.mapSpans_nowhere, right.mapSpans_nowhere]
  | .conditional _ test consequent alternate => by
    rw [Expr.mapSpans, Expr.erase, test.mapSpans_nowhere, consequent.mapSpans_nowhere,
      alternate.mapSpans_nowhere]
  | .assignment _ _ target value => by
    rw [Expr.mapSpans, Expr.erase, target.mapSpans_nowhere, value.mapSpans_nowhere]
  | .update _ _ _ target => by rw [Expr.mapSpans, Expr.erase, target.mapSpans_nowhere]

theorem Property.mapSpans_nowhere :
    (property : Property) → property.mapSpans (fun _ => .nowhere) = property.erase
  | .named _ => rfl
  | .computed key => by rw [Property.mapSpans, Property.erase, key.mapSpans_nowhere]

theorem Element.mapSpansAll_nowhere : (elements : List Element) →
    Element.mapSpansAll (fun _ => .nowhere) elements = Element.eraseAll elements
  | [] => rfl
  | .single value :: rest | .spread value :: rest => by
    rw [Element.mapSpansAll, Element.eraseAll, value.mapSpans_nowhere,
      Element.mapSpansAll_nowhere rest]

theorem Entry.mapSpansAll_nowhere : (entries : List Entry) →
    Entry.mapSpansAll (fun _ => .nowhere) entries = Entry.eraseAll entries
  | [] => rfl
  | .named _ value :: rest | .spread value :: rest => by
    rw [Entry.mapSpansAll, Entry.eraseAll, value.mapSpans_nowhere,
      Entry.mapSpansAll_nowhere rest]
  | .computed key value :: rest => by
    rw [Entry.mapSpansAll, Entry.eraseAll, key.mapSpans_nowhere, value.mapSpans_nowhere,
      Entry.mapSpansAll_nowhere rest]

end

theorem Token.mapSpan_nowhere_eq {ts ts' : List Token} (h : ts'.map kind = ts.map kind) :
    ts'.map (mapSpan fun _ => .nowhere) = ts.map (mapSpan fun _ => .nowhere) := by
  have hplace : mapSpan (fun _ => .nowhere) = (fun kind => ⟨kind, .nowhere⟩) ∘ kind := rfl
  rw [hplace, ← List.map_map, ← List.map_map, h]

-- ---------------------------------------------------------------------------
-- Other places
-- ---------------------------------------------------------------------------

/-- The pairing with the same tokens at other places, in front of a closing brace. -/
def movedPairing (f : Span → Span) (join : ∀ first last, f (first.join last) = (f first).join (f last)) :
    Parser.Pairing where
  span := f
  join := join
  Errors _ _ := True
  Closing s := s = ⟨[⟨.mustacheClose, .nowhere⟩], .ok .start⟩
  Read _ s := ∃ p, s.stop = .ok p
  strict := False
  errors _ _ _ := trivial
  closed _ _ _ _ := trivial
  tail h _ := h
  shift h := h.elim

namespace Phrase

variable {ts ts' : List Token} {e : Expr}

/-- The parser ends where the phrase does. -/
theorem read_all (h : Phrase 0 ts e) (p : Position) :
    Expr.parser ⟨ts, .ok p⟩ = .ok (e, ⟨[], .ok p⟩) := by
  have hread := h.read [] (.ok p) ⟨nofun, p, rfl⟩
  rwa [List.append_nil] at hread

theorem of_read {stop : Except CompileError Position} {s : TokenStream}
    (h : Expr.parser ⟨ts, stop⟩ = .ok (e, s)) (hs : s.tokens = []) : Phrase 0 ts e := by
  obtain ⟨taken, htaken, -, hphrase⟩ := Expr.parser_makes _ _ _ trivial h
  rw [hs, List.append_nil] at htaken
  obtain rfl : ts = taken := htaken
  exact hphrase

/-- The streams of what is left after the two runs. -/
theorem linked_brace {f : Span → Span} {join : ∀ first last, f (first.join last) = (f first).join (f last)}
    {modes : List Mode} {n : Nat} {s t : TokenStream}
    (h : (movedPairing f join).At modes n s t) :
    t = ⟨s.tokens.map (Token.mapSpan f) ++ [⟨.mustacheClose, .nowhere⟩], .ok .start⟩ := by
  obtain ⟨⟨p, hp⟩, -, u, hu, rfl⟩ := h
  rw [hp] at hu
  cases hu with
  | ok hopen => exact absurd rfl (hopen _)
  | closed hclosing =>
    cases hclosing
    rfl

theorem moved_iff {f : Span → Span} (join : ∀ first last, f (first.join last) = (f first).join (f last))
    {moved : Expr} : Phrase 0 (ts.map (Token.mapSpan f)) moved ↔
      ∃ e, Phrase 0 ts e ∧ moved = e.mapSpans f := by
  let brace : Token := ⟨.mustacheClose, .nowhere⟩
  have hlinked : (movedPairing f join).At [.expression 0] ts.length ⟨ts, .ok .start⟩
      ⟨ts.map (Token.mapSpan f) ++ [brace], .ok .start⟩ :=
    ⟨⟨_, rfl⟩, Nat.le_refl _, ⟨[brace], .ok .start⟩, .closed rfl, rfl⟩
  have hresults := Expr.parser_paired _ _ hlinked
  constructor
  · intro h
    rw [h.read [brace] (.ok .start) (After.of_none rfl)] at hresults
    generalize hrun : Expr.parser ⟨ts, .ok .start⟩ = first at hresults
    cases hresults with
    | @ok e _ s _ hmade =>
      have hrest := congrArg TokenStream.tokens (linked_brace hmade.linked)
      exact ⟨e, of_read hrun (by simpa [brace] using hrest), hmade.value⟩
  · rintro ⟨e, h, rfl⟩
    rw [h.read_all] at hresults
    generalize hrun : Expr.parser ⟨ts.map (Token.mapSpan f) ++ [brace], .ok .start⟩ = second
      at hresults
    cases hresults with
    | ok hmade =>
      obtain ⟨hvalue, hlinked⟩ := hmade
      obtain rfl := linked_brace hlinked
      obtain ⟨taken, htaken, -, hphrase⟩ := Expr.parser_makes _ _ _ trivial hrun
      obtain rfl := List.append_cancel_right htaken
      rwa [hvalue] at hphrase

theorem of_kinds (h : Phrase 0 ts e) (hkinds : ts'.map Token.kind = ts.map Token.kind) :
    ∃ e', Phrase 0 ts' e' ∧ e'.erase = e.erase := by
  have hmoved := (moved_iff (f := fun _ => .nowhere) fun _ _ => rfl).2 ⟨e, h, rfl⟩
  rw [← Token.mapSpan_nowhere_eq hkinds] at hmoved
  obtain ⟨e', h', heq⟩ := (moved_iff fun _ _ => rfl).1 hmoved
  refine ⟨e', h', ?_⟩
  rw [← e'.mapSpans_nowhere, ← e.mapSpans_nowhere, heq]

end Phrase

/-! ## Whole texts -/

-- ---------------------------------------------------------------------------
-- The end of the text
-- ---------------------------------------------------------------------------

/-- Where there is no next token, the text has been read to its end. -/
theorem Parser.peekKind_end : Ensures (fun _ => True) peekKind fun _ t =>
    t.tokens = [] → ∃ p, t.stop = .ok p := by
  rintro ⟨_ | ⟨token, tokens⟩, _ | p⟩ found t - hrun
  · cases hrun
  · cases hrun
    exact fun _ => ⟨p, rfl⟩
  · cases hrun
    exact nofun
  · cases hrun
    exact nofun

namespace Expr

theorem assignments_end (budget : Nat) : Ensures (fun _ => True) (assignments budget) fun _ t =>
    t.tokens = [] → ∃ p, t.stop = .ok p := by
  induction budget with
  | zero => exact .failAtEnd
  | succ budget ih =>
    rw [assignments]
    refine .bind (Q := fun _ _ => True) (fun _ _ _ _ _ => trivial) fun target => ?_
    refine .bind peekKind_end fun found => ?_
    cases found.bind AssignOp.ofToken? with
    | none => exact .pure fun _ => id
    | some op =>
      refine .bind (Q := fun _ _ => True) (fun _ _ _ _ _ => trivial) fun _ => ?_
      exact .bind ih fun value => .pure fun _ => id

variable {text : String} {e : Expr}

theorem readsAs_iff : ReadsAs text e ↔ Phrase 0 (Lexer.expression text).stream.tokens e ∧
    ∃ p, (Lexer.expression text).stream.stop = .ok p := by
  constructor
  · rintro ⟨s, hrun, hs⟩
    obtain ⟨-, -, hstop, -⟩ := parser_makes _ _ _ trivial hrun
    obtain ⟨p, hp⟩ := assignments_end _ _ _ _ trivial hrun hs
    exact ⟨.of_read hrun hs, p, hstop ▸ hp⟩
  · rintro ⟨h, p, hp⟩
    have hread := h.read_all p
    rw [← hp] at hread
    exact ⟨_, hread, rfl⟩

theorem ReadsAs.parse (h : ReadsAs text e) : parseExpression text = .ok e := by
  obtain ⟨s, hrun, -⟩ := h
  exact congrArg (Prod.fst <$> ·) hrun

-- ---------------------------------------------------------------------------
-- In parentheses
-- ---------------------------------------------------------------------------

end Expr

namespace Lexer

variable {depth : Nat} {outer : List Mode}

theorem parenOpen_step {more : List Char} {p : Position} :
    (⟨'(' :: more, p, .expression depth :: outer, false⟩ : Lexer).next =
      (⟨more, p.after '(', .expression depth :: outer, false⟩ : Lexer).emit p (.symbol .parenOpen) :=
  rfl

theorem parenClose_step {more : List Char} {p : Position} :
    (⟨')' :: more, p, .expression depth :: outer, false⟩ : Lexer).next =
      (⟨more, p.after ')', .expression depth :: outer, false⟩ : Lexer).emit p (.symbol .parenClose) :=
  rfl

theorem parens_lexes {text : String} {e : Expr} (h : Expr.ReadsAs text e) :
    Lexes [.expression 0] ('(' :: text.toList ++ [')'])
      (.symbol .parenOpen :: (expression text).stream.tokens.map Token.kind ++ [.symbol .parenClose])
      [.expression 0] fun _ => True := by
  intro more p _
  obtain ⟨hphrase, hstop⟩ := Expr.readsAs_iff.1 h
  have hmoved := stream_behind text (p.after '(')
  have hkinds := hmoved.kinds
  obtain ⟨inner, hinner, -⟩ := hphrase.of_kinds hkinds
  have hnests := hinner.nests
  have hclose : ∀ token ∈ (⟨text.toList, p.after '(', [.expression 0], false⟩ : Lexer).stream.tokens,
      token.kind ≠ .mustacheClose := by
    intro token htoken hkind
    have hword := hnests.words token htoken
    rw [hkind] at hword
    cases hword
  have hbraces := (Bracket.depth?_count (hnests.depth .brace 0)).trans (Nat.zero_add _)
  have hclosing (q : Position) : Emits ⟨')' :: more, q, [.expression 0], false⟩
      [⟨.symbol .parenClose, .between q (q.after ')')⟩] ⟨more, q.after ')', [.expression 0], false⟩ :=
    .cons parenClose_step (Nat.lt_succ_self _) .nil
  have hemits := emits_embedded (l := ⟨text.toList, p.after '(', [.expression 0], false⟩) rfl rfl
    (hmoved.stop_ok_iff.2 hstop) hclose hbraces rfl (List.cons_ne_nil _ []) (hclosing _)
  refine ⟨_, ?_, .cons parenOpen_step (by simp) (by simpa [Position.afterAll_append] using hemits)⟩
  simp [hkinds]

end Lexer

end PromptTemplate
