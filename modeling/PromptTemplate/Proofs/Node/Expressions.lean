import PromptTemplate.Proofs.Node.Ordered

/-!
# The expressions of a document

The expressions that a document is made of: interpolations, conditions, what
loops go through, and values of attributes. They stand one after the other,
each with a nested layout (`parseDocument_expressions`).
-/

namespace PromptTemplate

open PromptTemplate.Parser
open Outline (Row leaf)

def AttributeValue.expressions : AttributeValue → List Expr
  | .flag | .literal _ => []
  | .expression value => [value]

def Attribute.expressions (attributes : List Attribute) : List Expr :=
  attributes.flatMap (·.value.expressions)

mutual

def Node.expressions : Node → List Expr
  | .config .. | .text .. => []
  | .mustache _ value => [value]
  | .ifBlock _ condition consequent alternates =>
    condition :: (Node.expressionsAll consequent ++ Alternate.expressionsAll alternates)
  | .eachBlock _ iterable _ _ body fallback =>
    iterable :: (Node.expressionsAll body ++ Node.fallbackExpressions fallback)
  | .tag head children => Attribute.expressions head.attributes ++ Node.expressionsAll children

def Node.expressionsAll : List Node → List Expr
  | [] => []
  | node :: rest => node.expressions ++ Node.expressionsAll rest

def Alternate.expressionsAll : List Alternate → List Expr
  | [] => []
  | .elseIf condition body :: rest =>
    condition :: (Node.expressionsAll body ++ Alternate.expressionsAll rest)
  | .otherwise body :: rest => Node.expressionsAll body ++ Alternate.expressionsAll rest

def Node.fallbackExpressions : Option (List Node) → List Expr
  | none => []
  | some body => Node.expressionsAll body

end

def Document.expressions (document : Document) : List Expr := Node.expressionsAll document.nodes

/-- The layouts of expressions, as pieces of a text. -/
abbrev layoutsOf (expressions : List Expr) : List Outline := expressions.map Expr.layout

namespace Attribute

theorem valueParser_expressions : Ordered [] valueParser fun v => layoutsOf v.expressions := by
  rw [valueParser]
  simp only [discard_bind]
  refine .skip .takeSymbol fun found => .ite (fun _ => .pure fun _ _ => id) fun _ => ?_
  refine .skip .take fun token => ?_
  split
  · exact .failAtEnd
  · split
    · exact .pure fun _ _ => id
    · exact .bind Expr.parser_layout fun value => .skip .expectClose fun _ => .pure fun _ _ => id
    · exact .fail
    · exact .fail

theorem list_expressions (budget : Nat) (earlier : List Attribute) :
    Ordered (layoutsOf (expressions earlier)) (list budget earlier) fun r =>
      layoutsOf (expressions r.1) := by
  induction budget generalizing earlier with
  | zero => exact .failAtEnd
  | succ budget ih =>
    rw [list]
    refine .skip .takeRequired fun token => ?_
    split
    · refine .ite (fun _ => .fail) fun _ => .bind valueParser_expressions fun value => ?_
      refine (ih _).weaken fun _ _ hrow => ?_
      simpa [expressions] using hrow
    · exact .pure fun _ _ => id
    · exact .pure fun _ _ => id
    · exact .fail
    · exact .fail

end Attribute

namespace Node

variable {nested : List Construct → Parser (List Node)} {enclosing : List Construct}

section
variable (hnested : ∀ enclosing, Ordered [] (nested enclosing) fun nodes =>
  layoutsOf (expressionsAll nodes))
include hnested

theorem alternates_expressions (budget : Nat) (hasElse : Bool) :
    Ordered [] (alternates nested enclosing budget hasElse) fun r =>
      layoutsOf (Alternate.expressionsAll r.1) := by
  induction budget generalizing hasElse with
  | zero => exact .failAtEnd
  | succ budget ih =>
    rw [alternates]
    simp only [discard_bind]
    refine .skip .takeRequired fun token => .ite (fun _ => ?_) fun _ => ?_
    · refine .skip .take fun _ => .skip .takeWord fun _ => .ite (fun _ => ?_) fun _ => ?_
      · refine .bind Expr.parser_layout fun condition => .skip .expectClose fun _ => ?_
        refine .bind (hnested _) fun body => .bind (ih hasElse) fun more => .pure fun _ _ hrow => ?_
        simpa [Alternate.expressionsAll] using hrow
      · refine .skip .expectClose fun _ => .bind (hnested _) fun body => ?_
        refine .bind (ih true) fun more => .pure fun _ _ hrow => ?_
        simpa [Alternate.expressionsAll] using hrow
    · exact .skip .expectClose fun last => .pure fun _ _ => id

theorem ifBlockParser_expressions (budget : Nat) (start : Span) :
    Ordered [] (ifBlockParser nested enclosing budget start) fun n => layoutsOf n.expressions := by
  rw [ifBlockParser]
  simp only [discard_bind]
  refine .bind Expr.parser_layout fun condition => .skip .expectClose fun _ => ?_
  refine .bind (hnested _) fun consequent => ?_
  refine .bind (alternates_expressions hnested budget false) fun r => .pure fun _ _ hrow => ?_
  simpa [Node.expressions] using hrow

theorem fallback_expressions (budget : Nat) (earlier : Option (List Node)) :
    Ordered (layoutsOf (fallbackExpressions earlier)) (fallback nested enclosing budget earlier)
      fun r => layoutsOf (fallbackExpressions r.1) := by
  induction budget generalizing earlier with
  | zero => exact .failAtEnd
  | succ budget ih =>
    rw [fallback]
    simp only [discard_bind]
    refine .skip .takeRequired fun token => .ite (fun _ => ?_) fun _ => ?_
    · refine .skip .take fun _ => .skip .expectClose fun _ => .bind (hnested _) fun body => ?_
      exact (ih (some body)).weaken fun _ _ hrow => hrow.sublist (List.sublist_append_right ..)
    · exact .skip .expectClose fun last => .pure fun _ _ => id

theorem eachBlockParser_expressions (budget : Nat) (start : Span) :
    Ordered [] (eachBlockParser nested enclosing budget start) fun n =>
      layoutsOf n.expressions := by
  rw [eachBlockParser]
  simp only [discard_bind]
  refine .bind Expr.parser_layout fun iterable => .skip .takeWord fun _ => ?_
  refine .ite (fun _ => .failed fun _ => .failExpecting) fun _ => ?_
  refine .skip Pattern.parser_ordered fun item => .skip .takeSymbol fun comma => ?_
  have hindex : ∀ index : Option Ident, Ordered [] (pure index) fun _ => [] :=
    fun _ => .pure fun _ _ => id
  refine .ite (fun _ => .skip .name fun name => .skip (hindex _) ?_) fun _ => .skip (hindex _) ?_
  all_goals
    refine fun index => .skip .expectClose fun _ => .bind (hnested _) fun body => ?_
    refine .bind (fallback_expressions hnested budget none) fun r => .pure fun _ _ hrow => ?_
    simpa [Node.expressions] using hrow

theorem tagParser_expressions (budget : Nat) (start : Span) (name : String) :
    Ordered [] (tagParser nested enclosing budget start name) fun n =>
      layoutsOf n.expressions := by
  rw [tagParser]
  refine .bind (Attribute.list_expressions budget []) fun r => ?_
  refine .seq (Attribute.checkLiteral_ordered _ _) fun _ => .ite (fun _ => ?_) fun _ => ?_
  · exact .pure fun _ _ hrow => by simpa [Node.expressions, expressionsAll] using hrow
  · refine .bind (hnested _) fun children => .skip .takeRequired fun token => ?_
    exact .pure fun _ _ hrow => by simpa [Node.expressions] using hrow

end

theorem list_expressions (budget : Nat) (enclosing : List Construct) :
    Ordered [] (list budget enclosing) fun nodes => layoutsOf (expressionsAll nodes) := by
  induction budget generalizing enclosing with
  | zero => exact .failAtEnd
  | succ budget ih =>
    unfold list
    simp only [discard_bind]
    refine .seq .peekAt fun found => ?_
    cases found with
    | none =>
      cases enclosing with
      | nil => exact .pure fun _ _ => id
      | cons inner outer => exact .failAtEnd
    | some token =>
      have hrest : ∀ node : Node, Ordered (layoutsOf node.expressions)
          (do let nodes ← list budget enclosing; pure (node :: nodes))
          fun nodes => layoutsOf (expressionsAll nodes) :=
        fun node => .bind (ih _) fun nodes => .pure fun _ _ hrow => by
          simpa [expressionsAll] using hrow
      dsimp only
      split
      · exact .skip .take fun _ => hrest (.text token.span _)
      · refine .skip .take fun _ => .bind Expr.parser_layout fun value => ?_
        exact .skip .expectClose fun last => hrest (.mustache _ value)
      · refine .skip .take fun _ => .ite (fun _ => ?_) fun _ => .ite (fun _ => ?_) fun _ => ?_
        · exact .seq (ifBlockParser_expressions ih _ _) hrest
        · exact .seq (eachBlockParser_expressions ih _ _) hrest
        · exact .failed fun _ => .fail
      · exact .seq (checkBranch_ordered _) fun _ => .pure fun _ _ => id
      · exact .ite (fun _ => .pure fun _ _ => id) fun _ => .fail
      · exact .skip .take fun _ => .seq (tagParser_expressions ih _ _ _) hrest
      · exact .ite (fun _ => .pure fun _ _ => id) fun _ => .fail
      · exact .fail

theorem configParser_expressions :
    Ordered [] configParser fun nodes => layoutsOf (expressionsAll nodes) := by
  rw [configParser]
  simp only [discard_bind]
  refine .seq .peekAt fun found => ?_
  split
  · refine .skip .take fun _ => ?_
    split
    · exact .pure fun _ _ => id
    · exact .fail
  · exact .pure fun _ _ => id

theorem expressionsAll_append (nodes more : List Node) :
    expressionsAll (nodes ++ more) = expressionsAll nodes ++ expressionsAll more := by
  induction nodes with
  | nil => rfl
  | cons node nodes ih => simp [expressionsAll, ih]

end Node

theorem Document.parser_expressions :
    Ordered [] Document.parser fun d => layoutsOf d.expressions := by
  rw [Document.parser]
  refine .seq Node.configParser_expressions fun opening => .budget_bind fun budget => ?_
  refine .bind (Node.list_expressions budget []) fun nodes => .pure fun _ _ hrow => ?_
  simpa [Document.expressions, Node.expressionsAll_append] using hrow

/-- The expressions of a document stand one after the other. -/
theorem parseDocument_expressions {source : String} {document : Document}
    (h : parseDocument source = .ok document) :
    ∃ last, Row 0 last (layoutsOf document.expressions) :=
  Document.parser_expressions.row_of_stream (Lexer.stream_laid (.document source)).increasing h

theorem parseExpression_layout {source : String} {e : Expr} (h : parseExpression source = .ok e) :
    ∃ last, Row 0 last [e.layout] :=
  Expr.parser_layout.row_of_stream (Lexer.stream_laid (.expression source)).increasing h

/-- The expression is what a text is read as, or it is one of those that a document is made of. -/
def Expr.IsParsed (e : Expr) : Prop :=
  ∃ source, parseExpression source = .ok e ∨
    ∃ document, parseDocument source = .ok document ∧ e ∈ document.expressions

theorem Expr.IsParsed.layout {e : Expr} (h : e.IsParsed) : e.layout.Nested := by
  obtain ⟨source, hexpression | ⟨document, hdocument, hmem⟩⟩ := h
  · obtain ⟨last, hrow⟩ := parseExpression_layout hexpression
    exact List.forall_mem_singleton.mp hrow.nested
  · obtain ⟨last, hrow⟩ := parseDocument_expressions hdocument
    exact hrow.nested _ (List.mem_map_of_mem hmem)

end PromptTemplate
