import PromptTemplate.Node.Parser
import PromptTemplate.Proofs.Expr.Located

/-!
# Where nodes stand

The readers of patterns, attributes and nodes, as those of expressions, give
spans of tokens and their joins, and fail at one of these. So an error of
parsing points into the text, and so does every span of the document.
-/

namespace PromptTemplate

open PromptTemplate.Parser

variable {P : Span → Prop}

-- ---------------------------------------------------------------------------
-- Patterns
-- ---------------------------------------------------------------------------

namespace Pattern

section
variable {nested : Parser Pattern} (hnested : Located P nested (Pattern.Spanned P))
include hnested

theorem entries_located (budget : Nat) :
    Located P (entries nested budget) (Pattern.EntriesSpanned P) := by
  induction budget with
  | zero => exact .failAtEnd
  | succ budget ih =>
    rw [entries]
    simp only [discard_bind]
    refine .bind .takeSymbol fun found _ => .ite (fun _ => .pure trivial) fun _ => ?_
    refine .bind .name fun key hkey => .bind .takeSymbol fun colon _ => ?_
    have hname : (Pattern.ident ⟨key.1, key.2⟩).Spanned P := hkey
    refine .ite (fun _ => .bind hnested ?_) fun _ => .bind (.pure hname) ?_
    all_goals
      intro binding hbinding
      refine .bind .takeSymbol fun comma _ => .ite (fun _ => ?_) fun _ => ?_
      · exact .bind ih fun more hmore => .pure ⟨hkey, hbinding, hmore⟩
      · exact .bind .expectSymbol fun _ _ => .pure ⟨hkey, hbinding, trivial⟩

theorem items_located (budget : Nat) :
    Located P (items nested budget) (Pattern.ItemsSpanned P) := by
  induction budget with
  | zero => exact .failAtEnd
  | succ budget ih =>
    rw [items]
    simp only [discard_bind]
    refine .bind .takeSymbol fun found _ => .ite (fun _ => .pure trivial) fun _ => ?_
    refine .bind hnested fun first hfirst => ?_
    refine .bind .takeSymbol fun comma _ => .ite (fun _ => ?_) fun _ => ?_
    · exact .bind ih fun more hmore => .pure ⟨hfirst, hmore⟩
    · exact .bind .expectSymbol fun _ _ => .pure ⟨hfirst, trivial⟩

end

theorem patterns_located (budget : Nat) : Located P (patterns budget) (Pattern.Spanned P) := by
  induction budget with
  | zero => exact .failAtEnd
  | succ budget ih =>
    rw [patterns]
    refine .bind .takeRequired fun token htoken => ?_
    split
    · exact .pure htoken
    · exact .bind (entries_located ih _) fun entries h => .pure h
    · exact .bind (items_located ih _) fun items h => .pure h
    · exact .fail htoken

theorem parser_located : Located P parser (Pattern.Spanned P) := .budget_bind patterns_located

end Pattern

-- ---------------------------------------------------------------------------
-- Attributes
-- ---------------------------------------------------------------------------

variable (hjoin : ∀ {first last : Span}, P first → P last → P (first.join last))

namespace Attribute

include hjoin

theorem valueParser_located : Located P valueParser (AttributeValue.Spanned P) := by
  rw [valueParser]
  simp only [discard_bind]
  refine .bind .takeSymbol fun found _ => .ite (fun _ => .pure trivial) fun _ => ?_
  refine .bind .take fun token htoken => ?_
  split
  · exact .failAtEnd
  · rename_i token
    have htoken := htoken token rfl
    split
    · exact .pure trivial
    · exact .bind (Expr.parser_located hjoin) fun value h => .bind .expectClose fun _ _ => .pure h
    · exact .fail htoken
    · exact .fail htoken

theorem list_located (budget : Nat) {earlier : List Attribute}
    (h : ∀ a ∈ earlier, a.Spanned P) :
    Located P (list budget earlier) fun r => (∀ a ∈ r.1, a.Spanned P) ∧ P r.2.span := by
  induction budget generalizing earlier with
  | zero => exact .failAtEnd
  | succ budget ih =>
    rw [list]
    refine .bind .takeRequired fun token htoken => ?_
    split
    · refine .ite (fun _ => .fail htoken) fun _ => ?_
      refine .bind (valueParser_located hjoin) fun value hvalue => ih fun a ha => ?_
      rcases List.mem_append.mp ha with ha | ha
      · exact h a ha
      · obtain rfl := List.mem_singleton.mp ha
        exact ⟨htoken, hvalue⟩
    · exact .pure ⟨h, htoken⟩
    · exact .pure ⟨h, htoken⟩
    · exact .fail htoken
    · exact .fail htoken

omit hjoin in
theorem checkLiteral_located {attributes : List Attribute} (h : ∀ a ∈ attributes, a.Spanned P)
    (names : List String) : Located P (checkLiteral attributes names) fun _ => True := by
  induction names with
  | nil => exact .pure trivial
  | cons name names ih =>
    rw [checkLiteral]
    split
    · rename_i found
      exact .fail (h _ (List.mem_of_find?_eq_some found)).1
    · exact ih

end Attribute

-- ---------------------------------------------------------------------------
-- Nodes
-- ---------------------------------------------------------------------------

namespace Node

variable {nested : List Construct → Parser (List Node)} {enclosing : List Construct} {span : Span}

theorem checkBranch_located (h : P span) :
    Located P (checkBranch enclosing span) fun _ => True := by
  rw [checkBranch]
  refine .bind .peekAt fun first _ => .bind .peekAt fun second _ => ?_
  refine .ite (fun _ => .fail h) fun _ => .ite (fun _ => ?_) fun _ => .fail h
  split
  · cases Construct.placeElseIf enclosing with
    | ok => exact .pure trivial
    | error cause => exact .fail h
  · cases Construct.placeElse enclosing with
    | ok => exact .pure trivial
    | error cause => exact .fail h

include hjoin

section
variable (hnested : ∀ enclosing, Located P (nested enclosing) (Node.AllSpanned P))
include hnested

theorem alternates_located (budget : Nat) (hasElse : Bool) :
    Located P (alternates nested enclosing budget hasElse) fun r =>
      Alternate.AllSpanned P r.1 ∧ P r.2 := by
  induction budget generalizing hasElse with
  | zero => exact .failAtEnd
  | succ budget ih =>
    rw [alternates]
    simp only [discard_bind]
    refine .bind .takeRequired fun token _ => .ite (fun _ => ?_) fun _ => ?_
    · refine .bind .take fun _ _ => .bind .takeWord fun _ _ => .ite (fun _ => ?_) fun _ => ?_
      · refine .bind (Expr.parser_located hjoin) fun condition hcondition => ?_
        refine .bind .expectClose fun _ _ => .bind (hnested _) fun body hbody => ?_
        exact .bind (ih hasElse) fun more hmore => .pure ⟨⟨hcondition, hbody, hmore.1⟩, hmore.2⟩
      · refine .bind .expectClose fun _ _ => .bind (hnested _) fun body hbody => ?_
        exact .bind (ih true) fun more hmore => .pure ⟨⟨hbody, hmore.1⟩, hmore.2⟩
    · exact .bind .expectClose fun last hlast => .pure ⟨trivial, hlast⟩

theorem ifBlockParser_located (hspan : P span) (budget : Nat) :
    Located P (ifBlockParser nested enclosing budget span) (Node.Spanned P) := by
  rw [ifBlockParser]
  simp only [discard_bind]
  refine .bind (Expr.parser_located hjoin) fun condition hcondition => ?_
  refine .bind .expectClose fun _ _ => .bind (hnested _) fun consequent hconsequent => ?_
  exact .bind (alternates_located hjoin hnested budget false) fun r hr =>
    .pure ⟨hjoin hspan hr.2, hcondition, hconsequent, hr.1⟩

omit hjoin in
theorem fallback_located (budget : Nat) {earlier : Option (List Node)}
    (h : Node.FallbackSpanned P earlier) :
    Located P (fallback nested enclosing budget earlier) fun r =>
      Node.FallbackSpanned P r.1 ∧ P r.2 := by
  induction budget generalizing earlier with
  | zero => exact .failAtEnd
  | succ budget ih =>
    rw [fallback]
    simp only [discard_bind]
    refine .bind .takeRequired fun token _ => .ite (fun _ => ?_) fun _ => ?_
    · refine .bind .take fun _ _ => .bind .expectClose fun _ _ => ?_
      exact .bind (hnested _) fun body hbody => ih hbody
    · exact .bind .expectClose fun last hlast => .pure ⟨h, hlast⟩

theorem eachBlockParser_located (hspan : P span) (budget : Nat) :
    Located P (eachBlockParser nested enclosing budget span) (Node.Spanned P) := by
  rw [eachBlockParser]
  simp only [discard_bind]
  refine .bind (Expr.parser_located hjoin) fun iterable hiterable => .bind .takeWord fun _ _ => ?_
  refine .ite (fun _ => .bind .failExpecting fun _ h => False.elim h) fun _ => ?_
  refine .bind Pattern.parser_located fun item hitem => .bind .takeSymbol fun comma _ => ?_
  have hnone : Located P (pure none) fun index : Option Ident => ∀ i ∈ index, P i.span :=
    .pure nofun
  have hsome : ∀ {name : String × Span}, P name.2 →
      Located P (pure (some (Ident.mk name.1 name.2))) fun index => ∀ i ∈ index, P i.span :=
    fun hname => .pure (by rintro _ ⟨⟩; exact hname)
  refine .ite (fun _ => .bind .name fun name hname => .bind (hsome hname) ?_) fun _ =>
    .bind hnone ?_
  all_goals
    refine fun index hindex => .bind .expectClose fun _ _ => .bind (hnested _) fun body hbody => ?_
    exact .bind (fallback_located hnested budget trivial) fun r hr =>
      .pure ⟨hjoin hspan hr.2, hiterable, hitem, hindex, hbody, hr.1⟩

theorem tagParser_located (hspan : P span) (budget : Nat) (name : String) :
    Located P (tagParser nested enclosing budget span name) (Node.Spanned P) := by
  rw [tagParser]
  refine .bind (Attribute.list_located hjoin budget nofun) fun r hr => ?_
  refine .bind (Attribute.checkLiteral_located hr.1 _) fun _ _ => ?_
  refine .ite (fun _ => .pure ⟨⟨hjoin hspan hr.2, hr.1⟩, trivial⟩) fun _ => ?_
  refine .bind (hnested _) fun children hchildren => ?_
  exact .bind .takeRequired fun token htoken => .pure ⟨⟨hjoin hspan htoken, hr.1⟩, hchildren⟩

end

theorem list_located (budget : Nat) (enclosing : List Construct) :
    Located P (list budget enclosing) (Node.AllSpanned P) := by
  induction budget generalizing enclosing with
  | zero => exact .failAtEnd
  | succ budget ih =>
    unfold list
    simp only [discard_bind]
    refine .bind .peek fun found hfound => ?_
    cases found with
    | none =>
      cases enclosing with
      | nil => exact .pure trivial
      | cons inner outer => exact .failAtEnd
    | some token =>
      have htoken := hfound token rfl
      have hcons : ∀ {p : Parser Node}, Located P p (Node.Spanned P) → Located P
          (do let node ← p; let nodes ← list budget enclosing; pure (node :: nodes))
          (Node.AllSpanned P) := fun hp =>
        .bind hp fun node hnode => .bind (ih _) fun nodes hnodes => .pure ⟨hnode, hnodes⟩
      dsimp only
      split
      · exact .bind .take fun _ _ => .bind (ih _) fun nodes hnodes => .pure ⟨htoken, hnodes⟩
      · refine .bind .take fun _ _ => .bind (Expr.parser_located hjoin) fun value hvalue => ?_
        refine .bind .expectClose fun last hlast => .bind (ih _) fun nodes hnodes => ?_
        exact .pure ⟨⟨hjoin htoken hlast, hvalue⟩, hnodes⟩
      · refine .bind .take fun _ _ => ?_
        refine .ite (fun _ => ?_) fun _ => .ite (fun _ => ?_) fun _ => ?_
        · exact hcons (ifBlockParser_located hjoin ih htoken _)
        · exact hcons (eachBlockParser_located hjoin ih htoken _)
        · exact hcons (.fail htoken)
      · exact .bind (checkBranch_located htoken) fun _ _ => .pure trivial
      · exact .ite (fun _ => .pure trivial) fun _ => .fail htoken
      · exact .bind .take fun _ _ => hcons (tagParser_located hjoin ih htoken _ _)
      · exact .ite (fun _ => .pure trivial) fun _ => .fail htoken
      · exact .fail htoken

omit hjoin in
theorem configParser_located : Located P configParser (Node.AllSpanned P) := by
  rw [configParser]
  simp only [discard_bind]
  refine .bind .peek fun found hfound => ?_
  split
  · have hspan := hfound _ rfl
    refine .bind .take fun _ _ => ?_
    split
    · exact .pure ⟨hspan, trivial⟩
    · exact .fail hspan
  · exact .pure trivial

end Node

include hjoin

theorem Document.parser_located :
    Located P Document.parser fun d => Node.AllSpanned P d.nodes := by
  rw [Document.parser]
  refine .bind Node.configParser_located fun opening hopening => .budget_bind fun budget => ?_
  exact .bind (Node.list_located hjoin budget []) fun nodes hnodes => .pure (hopening.append hnodes)

omit hjoin in
/-- What parsing gives stands in the text it was given. -/
theorem parseDocument_located (source : String) :
    match parseDocument source with
    | .ok document => Node.AllSpanned (Span.From (.startOf source.toList)) document.nodes
    | .error error => error.location.From (.startOf source.toList) := by
  have hrun := Document.parser_located Span.From.join _ (Lexer.document_spanned source)
  unfold parseDocument
  simp only [StateT.run]
  cases hparse : Document.parser (Lexer.document source).stream with
  | ok found =>
    rw [hparse] at hrun
    exact hrun.2
  | error error =>
    rw [hparse] at hrun
    exact hrun

end PromptTemplate
