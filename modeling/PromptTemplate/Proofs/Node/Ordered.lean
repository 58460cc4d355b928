import PromptTemplate.Proofs.Expr.Ordered
import PromptTemplate.Proofs.Node.Located

/-!
# Nodes go forward

The readers of patterns leave no pieces behind, those of attributes and nodes
one for each expression and node right inside. So the outline of a document is
nested (`parseDocument_nested`).
-/

namespace PromptTemplate

open PromptTemplate.Parser
open Outline (Row leaf)

-- ---------------------------------------------------------------------------
-- Patterns
-- ---------------------------------------------------------------------------

namespace Pattern

section
variable {nested : Parser Pattern} (hnested : Ordered [] nested fun _ => [])
include hnested

theorem entries_ordered (budget : Nat) : Ordered [] (entries nested budget) fun _ => [] := by
  induction budget with
  | zero => exact .failAtEnd
  | succ budget ih =>
    rw [entries]
    simp only [discard_bind]
    refine .skip .takeSymbol fun found => .ite (fun _ => .pure fun _ _ => id) fun _ => ?_
    refine .skip .name fun key => .skip .takeSymbol fun colon => ?_
    have hname : Ordered [] (pure (Pattern.ident ⟨key.1, key.2⟩)) fun _ => [] := .pure fun _ _ => id
    refine .ite (fun _ => .skip hnested ?_) fun _ => .skip hname ?_
    all_goals
      refine fun binding => .skip .takeSymbol fun comma => .ite (fun _ => ?_) fun _ => ?_
      · exact .skip ih fun more => .pure fun _ _ => id
      · exact .skip .expectSymbol fun _ => .pure fun _ _ => id

theorem items_ordered (budget : Nat) : Ordered [] (items nested budget) fun _ => [] := by
  induction budget with
  | zero => exact .failAtEnd
  | succ budget ih =>
    rw [items]
    simp only [discard_bind]
    refine .skip .takeSymbol fun found => .ite (fun _ => .pure fun _ _ => id) fun _ => ?_
    refine .skip hnested fun first => .skip .takeSymbol fun comma => .ite (fun _ => ?_) fun _ => ?_
    · exact .skip ih fun more => .pure fun _ _ => id
    · exact .skip .expectSymbol fun _ => .pure fun _ _ => id

end

theorem patterns_ordered (budget : Nat) : Ordered [] (patterns budget) fun _ => [] := by
  induction budget with
  | zero => exact .failAtEnd
  | succ budget ih =>
    rw [patterns]
    refine .skip .takeRequired fun token => ?_
    split
    · exact .pure fun _ _ => id
    · exact .skip (entries_ordered ih _) fun _ => .pure fun _ _ => id
    · exact .skip (items_ordered ih _) fun _ => .pure fun _ _ => id
    · exact .fail

theorem parser_ordered : Ordered [] parser fun _ => [] := .budget_bind patterns_ordered

end Pattern

-- ---------------------------------------------------------------------------
-- Attributes
-- ---------------------------------------------------------------------------

namespace Attribute

theorem valueParser_ordered : Ordered [] valueParser AttributeValue.outlines := by
  rw [valueParser]
  simp only [discard_bind]
  refine .skip .takeSymbol fun found => .ite (fun _ => .pure fun _ _ => id) fun _ => ?_
  refine .skip .take fun token => ?_
  split
  · exact .failAtEnd
  · split
    · exact .pure fun _ _ => id
    · exact .bind Expr.parser_ordered fun value => .skip .expectClose fun _ => .pure fun _ _ => id
    · exact .fail
    · exact .fail

theorem list_ordered (budget : Nat) (earlier : List Attribute) :
    Ordered (outlines earlier) (list budget earlier) fun r => outlines r.1 ++ [leaf r.2.span] := by
  induction budget generalizing earlier with
  | zero => exact .failAtEnd
  | succ budget ih =>
    rw [list]
    refine .bind .takeRequired fun token => ?_
    split
    · refine .ite (fun _ => .fail) fun _ => .bind valueParser_ordered fun value => ?_
      refine (ih _).weaken fun _ _ hrow => hrow.sublist ?_
      simp [outlines]
    · exact .pure fun _ _ => id
    · exact .pure fun _ _ => id
    · exact .fail
    · exact .fail

theorem checkLiteral_ordered {before : List Outline} (attributes : List Attribute)
    (names : List String) : Ordered before (checkLiteral attributes names) fun _ => before := by
  induction names with
  | nil => exact .pure fun _ _ => id
  | cons name names ih =>
    rw [checkLiteral]
    split
    · exact .fail
    · exact ih

end Attribute

-- ---------------------------------------------------------------------------
-- Nodes
-- ---------------------------------------------------------------------------

namespace Node

variable {nested : List Construct → Parser (List Node)} {enclosing : List Construct}

theorem checkBranch_ordered {before : List Outline} (span : Span) :
    Ordered before (checkBranch enclosing span) fun _ => before := by
  rw [checkBranch]
  refine .seq .peekAt fun first => .seq .peekAt fun second => ?_
  refine .ite (fun _ => .fail) fun _ => .ite (fun _ => ?_) fun _ => .fail
  split
  · cases Construct.placeElseIf enclosing with
    | ok => exact .pure fun _ _ => id
    | error cause => exact .fail
  · cases Construct.placeElse enclosing with
    | ok => exact .pure fun _ _ => id
    | error cause => exact .fail

section
variable (hnested : ∀ enclosing, Ordered [] (nested enclosing) Node.outlines)
include hnested

theorem alternates_ordered (budget : Nat) (hasElse : Bool) :
    Ordered [] (alternates nested enclosing budget hasElse) fun r =>
      Alternate.outlines r.1 ++ [leaf r.2] := by
  induction budget generalizing hasElse with
  | zero => exact .failAtEnd
  | succ budget ih =>
    rw [alternates]
    simp only [discard_bind]
    refine .skip .takeRequired fun token => .ite (fun _ => ?_) fun _ => ?_
    · refine .skip .take fun _ => .skip .takeWord fun _ => .ite (fun _ => ?_) fun _ => ?_
      · refine .bind Expr.parser_ordered fun condition => .skip .expectClose fun _ => ?_
        refine .bind (hnested _) fun body => .bind (ih hasElse) fun more => .pure fun _ _ hrow => ?_
        simpa [Alternate.outlines] using hrow
      · refine .skip .expectClose fun _ => .bind (hnested _) fun body => ?_
        refine .bind (ih true) fun more => .pure fun _ _ hrow => ?_
        simpa [Alternate.outlines] using hrow
    · exact .bind .expectClose fun last => .pure fun _ _ => id

theorem ifBlockParser_ordered (budget : Nat) (start : Span) :
    Ordered [leaf start] (ifBlockParser nested enclosing budget start) fun n => [n.outline] := by
  rw [ifBlockParser]
  simp only [discard_bind]
  refine .bind Expr.parser_ordered fun condition => .skip .expectClose fun _ => ?_
  refine .bind (hnested _) fun consequent => ?_
  refine .bind (alternates_ordered hnested budget false) fun r => .pure fun _ _ hrow => ?_
  rw [← List.append_assoc] at hrow
  exact hrow.join _ rfl (by simp)

theorem fallback_ordered (budget : Nat) (earlier : Option (List Node)) :
    Ordered (Node.fallbackOutlines earlier) (fallback nested enclosing budget earlier) fun r =>
      Node.fallbackOutlines r.1 ++ [leaf r.2] := by
  induction budget generalizing earlier with
  | zero => exact .failAtEnd
  | succ budget ih =>
    rw [fallback]
    simp only [discard_bind]
    refine .skip .takeRequired fun token => .ite (fun _ => ?_) fun _ => ?_
    · refine .skip .take fun _ => .skip .expectClose fun _ => .bind (hnested _) fun body => ?_
      -- A branch takes the place of an earlier one.
      exact (ih (some body)).weaken fun _ _ hrow => hrow.sublist (List.sublist_append_right ..)
    · exact .bind .expectClose fun last => .pure fun _ _ => id

theorem eachBlockParser_ordered (budget : Nat) (start : Span) :
    Ordered [leaf start] (eachBlockParser nested enclosing budget start) fun n => [n.outline] := by
  rw [eachBlockParser]
  simp only [discard_bind]
  refine .bind Expr.parser_ordered fun iterable => .skip .takeWord fun _ => ?_
  refine .ite (fun _ => .failed fun _ => .failExpecting) fun _ => ?_
  refine .skip Pattern.parser_ordered fun item => .skip .takeSymbol fun comma => ?_
  have hindex : ∀ index : Option Ident, Ordered [] (pure index) fun _ => [] :=
    fun _ => .pure fun _ _ => id
  refine .ite (fun _ => .skip .name fun name => .skip (hindex _) ?_) fun _ => .skip (hindex _) ?_
  all_goals
    refine fun index => .skip .expectClose fun _ => .bind (hnested _) fun body => ?_
    refine .bind (fallback_ordered hnested budget none) fun r => .pure fun _ _ hrow => ?_
    rw [← List.append_assoc] at hrow
    exact hrow.join _ rfl (by simp)

theorem tagParser_ordered (budget : Nat) (start : Span) (name : String) :
    Ordered [leaf start] (tagParser nested enclosing budget start name) fun n => [n.outline] := by
  rw [tagParser]
  refine .bind (Attribute.list_ordered budget []) fun r => ?_
  refine .seq (Attribute.checkLiteral_ordered _ _) fun _ => .ite (fun _ => ?_) fun _ => ?_
  · exact .pure fun _ _ hrow => hrow.join _ rfl (by simp [Node.outlines])
  · refine .bind (hnested _) fun children => .bind .takeRequired fun token => ?_
    refine .pure fun _ _ hrow => hrow.join _ rfl (.cons _ ?_)
    -- The end of the opening tag stands between the attributes and the children.
    have hattributes := List.sublist_append_left (Attribute.outlines r.1) [leaf r.2.span]
    exact (hattributes.append_right _).trans (List.sublist_append_left ..)

end

theorem list_ordered (budget : Nat) (enclosing : List Construct) :
    Ordered [] (list budget enclosing) Node.outlines := by
  induction budget generalizing enclosing with
  | zero => exact .failAtEnd
  | succ budget ih =>
    unfold list
    simp only [discard_bind]
    refine .peek_bind fun found first => ?_
    cases found with
    | none =>
      cases enclosing with
      | nil => exact Ordered.facing (.pure fun _ _ => id)
      | cons inner outer => exact .failAtEnd
    | some token =>
      have hrest : ∀ node : Node, Ordered [node.outline]
          (do let nodes ← list budget enclosing; pure (node :: nodes)) Node.outlines :=
        fun node => .bind (ih _) fun nodes => .pure fun _ _ => id
      dsimp only
      split
      · exact Ordered.take_facing (hrest (.text token.span _))
      · refine Ordered.take_facing (.bind Expr.parser_ordered fun value => ?_)
        refine .bind .expectClose fun last => (hrest _).weaken fun _ _ hrow => ?_
        exact hrow.join _ rfl (by simp)
      · refine Ordered.take_facing (.ite (fun _ => ?_) fun _ => .ite (fun _ => ?_) fun _ => ?_)
        · exact .seq (ifBlockParser_ordered ih _ _) hrest
        · exact .seq (eachBlockParser_ordered ih _ _) hrest
        · exact .failed fun _ => .fail
      · exact Ordered.facing (.seq (checkBranch_ordered _) fun _ => .pure fun _ _ => id)
      · exact Ordered.facing (.ite (fun _ => .pure fun _ _ => id) fun _ => .fail)
      · exact Ordered.take_facing (.seq (tagParser_ordered ih _ _ _) hrest)
      · exact Ordered.facing (.ite (fun _ => .pure fun _ _ => id) fun _ => .fail)
      · exact .fail

theorem configParser_ordered : Ordered [] configParser Node.outlines := by
  rw [configParser]
  simp only [discard_bind]
  refine .peek_bind fun found first => ?_
  split
  · refine Ordered.take_facing ?_
    split
    · exact .pure fun _ _ => id
    · exact .fail
  · exact Ordered.facing (.pure fun _ _ => id)

end Node

theorem Document.parser_ordered : Ordered [] Document.parser fun d => Node.outlines d.nodes := by
  rw [Document.parser]
  refine .seq Node.configParser_ordered fun opening => .budget_bind fun budget => ?_
  refine .bind (Node.list_ordered budget []) fun nodes => .pure fun _ _ hrow => ?_
  rw [Node.outlines_append]
  exact hrow

theorem parseDocument_row {source : String} {document : Document}
    (h : parseDocument source = .ok document) :
    ∃ last, Row 0 last (Node.outlines document.nodes) :=
  Document.parser_ordered.row_of_stream (Lexer.stream_laid (.document source)).increasing h

/-- The nodes of a document stand one after the other. All spans in them are stretches of the source
that are not empty, and those of the nodes and expressions right inside a node or an expression
stand inside its own one, one after the other. -/
theorem parseDocument_nested {source : String} {document : Document}
    (h : parseDocument source = .ok document) :
    (∀ node ∈ Node.outlines document.nodes, node.All (Span.Within source) ∧ node.Nested) ∧
    (Node.outlines document.nodes).Pairwise fun node later =>
      node.span.stop ≤ later.span.start := by
  have hlocated := parseDocument_located source
  rw [h] at hlocated
  obtain ⟨last, hrow⟩ := parseDocument_row h
  refine ⟨fun node hnode => ⟨?_, hrow.nested node hnode⟩, hrow.increasing⟩
  exact (Node.outlines_all _ hlocated node hnode).mono fun _ => Span.From.within

/-- The operand in parentheses keeps its own span, and the sum starts there. -/
theorem parseDocument_nested_branch :
    let sum : Expr := .binary ⟨6, 10, 1, 7⟩ .add (.identifier ⟨6, 7, 1, 7⟩ "x")
      (.identifier ⟨9, 10, 1, 10⟩ "y")
    let node : Node := .ifBlock ⟨0, 17, 1, 1⟩ sum [.text ⟨11, 12, 1, 12⟩ "a"] []
    parseDocument "\x7b#if (x)+y\x7da\x7b/if\x7d" = .ok ⟨[node]⟩ ∧
      node.outline.All (Span.Within "\x7b#if (x)+y\x7da\x7b/if\x7d") ∧ node.outline.Nested := by
  intro sum node
  have hparse : parseDocument "\x7b#if (x)+y\x7da\x7b/if\x7d" = .ok ⟨[node]⟩ := rfl
  exact ⟨hparse, (parseDocument_nested hparse).1 node.outline (List.mem_singleton.mpr rfl)⟩

end PromptTemplate
