import PromptTemplate.Eval
import PromptTemplate.Host.Standard
import PromptTemplate.Proofs.Expr.Reads
import PromptTemplate.Proofs.Expr.Whole
import PromptTemplate.Proofs.Node.Kept
import PromptTemplate.Proofs.Token.Slice

/-!
# The texts of expressions in a document

The text that the span of an expression covers is the expression on its own, if
the parentheses in it belong together: the span leaves out those around the
first and the last operand (`parseDocument_snippet`).
-/

namespace PromptTemplate

open PromptTemplate.Parser

/-- A variable that only an entry of an object can name. -/
def Expr.isReserved : Expr → Bool
  | .identifier _ name => PromptTemplate.isReserved name
  | _ => false

theorem Expr.ofWord_not_reserved {place : Span} {name : String} (h : name ≠ "typeof") :
    (ofWord place name).isReserved = false := by
  unfold ofWord
  split_ifs <;> simp_all [isReserved, PromptTemplate.isReserved]

theorem Phrase.not_reserved : {level : Nat} → {ts : List Token} → {e : Expr} → Phrase level ts e →
    e.isReserved = false
  | _, _, _, .loosen h | _, _, _, .parens h => h.not_reserved
  | _, _, _, .word h => Expr.ofWord_not_reserved h
  | _, _, _, .number | _, _, _, .string | _, _, _, .array _ | _, _, _, .object _
  | _, _, _, .member _ _ | _, _, _, .call _ _ | _, _, _, .updated _ _ | _, _, _, .update _ _
  | _, _, _, .unary _ _ | _, _, _, .power _ _ | _, _, _, .binary _ _ _ _
  | _, _, _, .conditional _ _ _ | _, _, _, .assignment _ _ _ => rfl

-- ---------------------------------------------------------------------------
-- Tokens under a span
-- ---------------------------------------------------------------------------

theorem Bracket.depth?_mapSpan {b : Bracket} {f : Span → Span} {depth : Nat} {ts : List Token} :
    b.depth? depth (ts.map (Token.mapSpan f)) = b.depth? depth ts := by
  induction ts generalizing depth with
  | nil => rfl
  | cons token ts ih =>
    simp only [List.map_cons, Bracket.depth?, ih]
    rfl

theorem Bracket.depth?_parens {depth : Nat} {ts : List Token}
    (h : ∀ token ∈ ts, token.Opens ∨ token.Closes) : brace.depth? depth ts = some depth := by
  induction ts with
  | nil => rfl
  | cons token ts ih =>
    obtain ⟨htoken, h⟩ := List.forall_mem_cons.1 h
    have hother : token.kind ≠ .symbol .braceOpen ∧ token.kind ≠ .symbol .braceClose := by
      rcases htoken with htoken | htoken <;> rw [htoken] <;> decide
    rw [depth?_other hother.1 hother.2, ih h]

/-- The tokens are the expression but for parentheses around it, or it is the variable of this name
in an object. -/
inductive Covered : List Token → Expr → Prop
  | phrase {level opens core closes e} (h : Phrase level (opens ++ core ++ closes) e)
    (hopens : ∀ token ∈ opens, token.Opens) (hcloses : ∀ token ∈ closes, token.Closes) :
    Covered core e
  | short {place name} : Covered [⟨.identifier name, place⟩] (.identifier place name)

namespace Covered

variable {core : List Token} {e : Expr}

theorem phrase_iff (h : Covered core e) :
    Phrase 0 core e ↔ Bracket.paren.depth? 0 core = some 0 ∧ e.isReserved = false := by
  refine ⟨fun hphrase => ⟨hphrase.nests.depth .paren 0, hphrase.not_reserved⟩, ?_⟩
  rintro ⟨hcore, hreserved⟩
  cases h with
  | phrase h hopens hcloses => exact h.of_core hopens hcloses hcore
  | @short place name =>
    have hname : name ≠ "typeof" := by
      rintro rfl
      cases hreserved
    have hword : Phrase 17 [⟨.identifier name, place⟩] (Expr.ofWord place name) := .word hname
    rw [Expr.ofWord_identifier hreserved] at hword
    exact hword.at_looser (Nat.zero_le 17)

theorem braces (h : Covered core e) : Bracket.brace.depth? 0 core = some 0 := by
  cases h with
  | short => rfl
  | phrase h hopens hcloses =>
    have hnests := h.nests.depth .brace 0
    rw [Bracket.depth?_append, Bracket.depth?_append,
      Bracket.depth?_parens fun token htoken => .inl (hopens token htoken), Option.bind_some,
      Option.bind_eq_some_iff] at hnests
    obtain ⟨depth, hcore, hdepth⟩ := hnests
    rw [Bracket.depth?_parens fun token htoken => .inr (hcloses token htoken)] at hdepth
    rw [hcore, hdepth]

/-- Where later tokens end later, the span of an expression among them goes over such ones. -/
theorem of_standsAmong {ts : List Token} (h : StandsAmong ts e) (hrise : Rise ts) :
    ∃ core, core <:+: ts ∧ Covered core e ∧ e.span.IsOver core := by
  obtain ⟨core, hcore, hstands⟩ := h
  cases hstands with
  | phrase h =>
    obtain ⟨opens, inner, closes, rfl, hopens, hcloses, hover⟩ := h.hull (hrise.sublist hcore.sublist)
    have hinner : inner <:+: opens ++ inner ++ closes := ⟨opens, closes, rfl⟩
    exact ⟨inner, hinner.trans hcore, .phrase h hopens hcloses, hover⟩
  | short => exact ⟨_, hcore, .short, _, _, rfl, rfl, rfl⟩

end Covered

-- ---------------------------------------------------------------------------
-- Tokens of a document
-- ---------------------------------------------------------------------------

namespace Document

variable {source : String} {d : Document} {e part : Expr}

/-- The expressions of a document stand among its tokens. -/
theorem expressions_stand (h : parseDocument source = .ok d) (he : e ∈ d.expressions) :
    ∃ front ts back, (Lexer.document source).stream.tokens = front ++ (ts ++ back) ∧ Phrase 0 ts e := by
  let P (s : TokenStream) : Prop := ∃ front, (Lexer.document source).stream.tokens = front ++ s.tokens
  have hkept : Kept P fun _ => True := by
    rintro token tokens stop ⟨front, hfront⟩
    exact ⟨⟨front ++ [token], by rw [hfront, List.append_assoc]; rfl⟩, trivial⟩
  have hexpr : Keeps P Expr.parser fun e => ∃ front ts back,
      (Lexer.document source).stream.tokens = front ++ (ts ++ back) ∧ Phrase 0 ts e := by
    rintro s e t ⟨front, hfront⟩ hrun
    obtain ⟨ts, htokens, -, hphrase⟩ := Expr.parser_makes s e t trivial hrun
    rw [htokens] at hfront
    exact ⟨⟨front ++ ts, by rw [hfront, List.append_assoc]⟩, front, ts, t.tokens, hfront, hphrase⟩
  cases hrun : Document.parser.run (Lexer.document source).stream with
  | error error =>
    rw [parseDocument, hrun] at h
    cases h
  | ok result =>
    rw [parseDocument, hrun] at h
    cases h
    exact ((parser_keeps hkept hexpr) _ _ _ ⟨[], rfl⟩ hrun).2 e he

/-- What the text of a part is read as. -/
theorem excerpt_reads (h : parseDocument source = .ok d) (he : e ∈ d.expressions)
    (hpart : part ∈ e.parts) : ∃ core, Covered core part ∧
      Lexer.ReadsTo (part.span.textOf source) part.span.begin core := by
  obtain ⟨front, ts, back, hsource, hphrase⟩ := expressions_stand h he
  have hrise : Rise (Lexer.document source).stream.tokens := by
    have hincreasing := (Lexer.stream_laid (Lexer.document source)).increasing
    exact hincreasing.pairwise.imp_of_mem fun _ hlater hle =>
      hle.trans (hincreasing.bounds _ hlater).2.le
  rw [hsource] at hrise
  have hinfix : ts <:+: front ++ (ts ++ back) := ⟨front, back, List.append_assoc ..⟩
  obtain ⟨core, hcore, hcovered, hover⟩ :=
    Covered.of_standsAmong (hphrase.parts part hpart) (hrise.sublist hinfix.sublist)
  exact ⟨core, hcovered, Lexer.phrase_slice hsource hphrase hcore hover hcovered.braces⟩

end Document

/-- Messages quote the whole text that the span of an expression covers. It is this expression, read
on its own, exactly if the parentheses in it belong together and it is no word but a variable. -/
theorem parseDocument_snippet (scene : Scene) {d : Document} {e part : Expr}
    (h : parseDocument scene.source = .ok d) (he : e ∈ d.expressions) (hpart : part ∈ e.parts) :
    let text := scene.snippet part.span
    text = part.span.textOf scene.source ∧
      ((∃ alone, Expr.ReadsAs text alone ∧ part = alone.mapSpans (Span.behind part.span.begin)) ↔
        Bracket.paren.depth? 0 (Lexer.expression text).stream.tokens = some 0 ∧
          part.isReserved = false) := by
  obtain ⟨core, hcovered, htrim, q, hstream⟩ := Document.excerpt_reads h he hpart
  rw [Scene.snippet, htrim]
  refine ⟨rfl, ?_⟩
  generalize part.span.textOf scene.source = text at *
  have hbehind := Lexer.stream_behind text part.span.begin
  have hstop : ∃ p, (Lexer.expression text).stream.stop = .ok p :=
    hbehind.stop_ok_iff.1 ⟨q, congrArg TokenStream.stop hstream⟩
  have htokens := hbehind.tokens_eq_map fun h => h
  rw [hstream] at htokens
  dsimp only at htokens
  rw [← Bracket.depth?_mapSpan (f := Span.behind part.span.begin), ← htokens, ← hcovered.phrase_iff,
    htokens, Phrase.moved_iff (Span.behind_join _)]
  simp only [Expr.readsAs_iff, hstop, and_true]

/-- The parentheses of the call are its own, those around its argument are not. -/
theorem parseDocument_snippet_call :
    let scene : Scene := ⟨"\x7bf((a)) + b\x7d", standardHost none, 0⟩
    ∃ d e part, parseDocument scene.source = .ok d ∧ e ∈ d.expressions ∧ part ∈ e.parts ∧
      scene.snippet part.span = "f((a))" ∧
      ∃ alone, Expr.ReadsAs "f((a))" alone ∧ part = alone.mapSpans (Span.behind ⟨1, 1, 2⟩) := by
  intro scene
  let call : Expr := .call ⟨1, 7, 1, 2⟩ (.identifier ⟨1, 2, 1, 2⟩ "f")
    [.single (.identifier ⟨4, 5, 1, 5⟩ "a")]
  let sum : Expr := .binary ⟨1, 11, 1, 2⟩ .add call (.identifier ⟨10, 11, 1, 11⟩ "b")
  let document : Document := ⟨[.mustache ⟨0, 12, 1, 1⟩ sum]⟩
  have hparse : parseDocument "\x7bf((a)) + b\x7d" = .ok document := rfl
  have hmem : sum ∈ document.expressions := List.mem_singleton_self _
  have hpart : call ∈ sum.parts := by simp [sum, Expr.parts, Expr.inner]
  have hsnippet : scene.snippet call.span = "f((a))" := by decide +kernel
  have hread := (parseDocument_snippet scene hparse hmem hpart).2
  rw [hsnippet] at hread
  have hdepth : Bracket.paren.depth? 0 (Lexer.expression "f((a))").stream.tokens = some 0 := by
    decide +kernel
  exact ⟨document, sum, call, hparse, hmem, hpart, hsnippet, hread.2 ⟨hdepth, rfl⟩⟩

set_option maxRecDepth 4000 in
/-- The opening parenthesis around the first operand is in front of the sum, the closing one in it. -/
theorem parseDocument_snippet_parens :
    ¬ ∀ (scene : Scene) (d : Document) (e part : Expr), parseDocument scene.source = .ok d →
      e ∈ d.expressions → part ∈ e.parts → ∃ alone, Expr.ReadsAs (scene.snippet part.span) alone ∧
        part = alone.mapSpans (Span.behind part.span.begin) := by
  intro h
  let scene : Scene := ⟨"\x7b[...(a) + b]\x7d", standardHost none, 0⟩
  let sum : Expr := .binary ⟨6, 12, 1, 7⟩ .add (.identifier ⟨6, 7, 1, 7⟩ "a")
    (.identifier ⟨11, 12, 1, 12⟩ "b")
  let array : Expr := .array ⟨1, 13, 1, 2⟩ [.spread sum]
  let document : Document := ⟨[.mustache ⟨0, 14, 1, 1⟩ array]⟩
  have hparse : parseDocument "\x7b[...(a) + b]\x7d" = .ok document := rfl
  have hpart : sum ∈ array.parts := by simp [array, Expr.parts, Expr.inner, Element.innerAll]
  obtain ⟨alone, ⟨s, hrun, hend⟩, -⟩ :=
    h scene document array sum hparse (List.mem_singleton_self _) hpart
  have hsnippet : scene.snippet sum.span = "a) + b" := by decide +kernel
  have hleft : (Expr.parser (Lexer.expression "a) + b").stream).toOption.map (·.2.tokens.length) =
      some 3 := by decide +kernel
  rw [hsnippet] at hrun
  rw [hrun] at hleft
  simp [Except.toOption, hend] at hleft

end PromptTemplate
