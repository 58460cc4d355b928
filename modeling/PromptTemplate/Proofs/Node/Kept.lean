import PromptTemplate.Proofs.Node.Expressions
import PromptTemplate.Proofs.Node.Sound

/-!
# What holds of every expression of a document

The expressions of a document are what the parser for expressions makes of some
places in the stream. So what it makes of every stream with a property that
streams keep holds of all of them (`Document.parser_keeps`).
-/

namespace PromptTemplate

open PromptTemplate.Parser

variable {P : TokenStream → Prop} {T : Token → Prop} (h : Kept P T)
include h

namespace Pattern

section
variable {nested : Parser Pattern} (hnested : Keeps P nested fun _ => True)
include hnested

theorem entries_keeps (budget : Nat) :
    Keeps P (entries nested budget) fun _ => True := by
  induction budget with
  | zero => exact .failAtEnd
  | succ budget ih =>
    rw [entries]
    simp only [discard_bind]
    refine .bind (.takeSymbol h) fun _ _ => .ite (fun _ => .pure trivial) fun _ => ?_
    refine .bind (.name h) fun name _ => .bind (.takeSymbol h) fun _ _ => ?_
    have hbinding : ∀ binding : Pattern, Keeps P (pure binding) fun _ => True :=
      fun _ => .pure trivial
    refine .ite (fun _ => .bind hnested ?_) fun _ => .bind (hbinding _) ?_
    all_goals
      refine fun _ _ => .bind (.takeSymbol h) fun _ _ => .ite (fun _ => ?_) fun _ => ?_
      · exact .bind ih fun _ _ => .pure trivial
      · exact .bind (.expectSymbol h) fun _ _ => .pure trivial

theorem items_keeps (budget : Nat) :
    Keeps P (items nested budget) fun _ => True := by
  induction budget with
  | zero => exact .failAtEnd
  | succ budget ih =>
    rw [items]
    simp only [discard_bind]
    refine .bind (.takeSymbol h) fun _ _ => .ite (fun _ => .pure trivial) fun _ => ?_
    refine .bind hnested fun _ _ => .bind (.takeSymbol h) fun _ _ => .ite (fun _ => ?_) fun _ => ?_
    · exact .bind ih fun _ _ => .pure trivial
    · exact .bind (.expectSymbol h) fun _ _ => .pure trivial

end

theorem patterns_keeps (budget : Nat) : Keeps P (patterns budget) fun _ => True := by
  induction budget with
  | zero => exact .failAtEnd
  | succ budget ih =>
    rw [patterns]
    refine .bind (.takeRequired h) fun token _ => ?_
    split
    · exact .pure trivial
    · exact .bind (entries_keeps h ih _) fun _ _ => .pure trivial
    · exact .bind (items_keeps h ih _) fun _ _ => .pure trivial
    · exact .fail

theorem parser_keeps : Keeps P parser fun _ => True := .budget_bind fun _ => patterns_keeps h _

end Pattern

variable {Q : Expr → Prop} (hexpr : Keeps P Expr.parser Q)
include hexpr

namespace Attribute

theorem valueParser_keeps : Keeps P valueParser fun v => ∀ e ∈ v.expressions, Q e := by
  rw [valueParser]
  simp only [discard_bind]
  refine .bind (.takeSymbol h) fun _ _ => .ite (fun _ => .pure (List.forall_mem_nil _)) fun _ => ?_
  refine .bind (.take h) fun found _ => ?_
  split
  · exact .failAtEnd
  · split
    · exact .pure (List.forall_mem_nil _)
    · refine .bind hexpr fun value hvalue => .bind (.expectClose h) fun _ _ => .pure ?_
      exact List.forall_mem_singleton.2 hvalue
    · exact .fail
    · exact .fail

theorem list_keeps (budget : Nat) {earlier : List Attribute} (hearlier : ∀ e ∈ expressions earlier, Q e) :
    Keeps P (list budget earlier) fun r => ∀ e ∈ expressions r.1, Q e := by
  induction budget generalizing earlier with
  | zero => exact .failAtEnd
  | succ budget ih =>
    rw [list]
    refine .bind (.takeRequired h) fun token _ => ?_
    split
    · refine .ite (fun _ => .fail) fun _ => ?_
      refine .bind (valueParser_keeps h hexpr) fun value hvalue => ih ?_
      simp only [expressions, List.flatMap_append, List.forall_mem_append]
      exact ⟨hearlier, by simpa using hvalue⟩
    · exact .pure hearlier
    · exact .pure hearlier
    · exact .fail
    · exact .fail

omit h hexpr in
theorem checkLiteral_keeps (attributes : List Attribute) (names : List String) :
    Keeps P (checkLiteral attributes names) fun _ => True := by
  induction names with
  | nil => exact .pure trivial
  | cons name names ih =>
    rw [checkLiteral]
    split
    · exact .fail
    · exact ih

end Attribute

namespace Node

variable {nested : List Construct → Parser (List Node)} {enclosing : List Construct}

omit h hexpr in
theorem checkBranch_keeps (span : Span) : Keeps P (checkBranch enclosing span) fun _ => True :=
  checkBranch_ensures.mono (fun _ => id) fun _ _ h => ⟨h.1, trivial⟩

section
variable (hnested : ∀ enclosing, Keeps P (nested enclosing) fun nodes => ∀ e ∈ expressionsAll nodes, Q e)
include hnested

theorem alternates_keeps (budget : Nat) (hasElse : Bool) :
    Keeps P (alternates nested enclosing budget hasElse) fun r =>
      ∀ e ∈ Alternate.expressionsAll r.1, Q e := by
  induction budget generalizing hasElse with
  | zero => exact .failAtEnd
  | succ budget ih =>
    rw [alternates]
    simp only [discard_bind]
    refine .bind (.takeRequired h) fun token _ => .ite (fun _ => ?_) fun _ => ?_
    · refine .bind (.take h) fun _ _ => .bind (.takeWord h) fun _ _ => .ite (fun _ => ?_) fun _ => ?_
      · refine .bind hexpr fun condition hcondition => .bind (.expectClose h) fun _ _ => ?_
        refine .bind (hnested _) fun body hbody => .bind (ih hasElse) fun more hmore => .pure ?_
        simp only [Alternate.expressionsAll, List.forall_mem_cons, List.forall_mem_append]
        exact ⟨hcondition, hbody, hmore⟩
      · refine .bind (.expectClose h) fun _ _ => .bind (hnested _) fun body hbody => ?_
        refine .bind (ih true) fun more hmore => .pure ?_
        simp only [Alternate.expressionsAll, List.forall_mem_append]
        exact ⟨hbody, hmore⟩
    · exact .bind (.expectClose h) fun _ _ => .pure (List.forall_mem_nil _)

theorem ifBlockParser_keeps (budget : Nat) (start : Span) :
    Keeps P (ifBlockParser nested enclosing budget start) fun n => ∀ e ∈ n.expressions, Q e := by
  rw [ifBlockParser]
  simp only [discard_bind]
  refine .bind hexpr fun condition hcondition => .bind (.expectClose h) fun _ _ => ?_
  refine .bind (hnested _) fun consequent hconsequent => ?_
  refine .bind (alternates_keeps h hexpr hnested budget false) fun r hr => .pure ?_
  simp only [Node.expressions, List.forall_mem_cons, List.forall_mem_append]
  exact ⟨hcondition, hconsequent, hr⟩

omit hexpr in
theorem fallback_keeps (budget : Nat) {earlier : Option (List Node)}
    (hearlier : ∀ e ∈ fallbackExpressions earlier, Q e) :
    Keeps P (fallback nested enclosing budget earlier) fun r => ∀ e ∈ fallbackExpressions r.1, Q e := by
  induction budget generalizing earlier with
  | zero => exact .failAtEnd
  | succ budget ih =>
    rw [fallback]
    simp only [discard_bind]
    refine .bind (.takeRequired h) fun token _ => .ite (fun _ => ?_) fun _ => ?_
    · refine .bind (.take h) fun _ _ => .bind (.expectClose h) fun _ _ => ?_
      exact .bind (hnested _) fun body hbody => ih hbody
    · exact .bind (.expectClose h) fun _ _ => .pure hearlier

theorem eachBlockParser_keeps (budget : Nat) (start : Span) :
    Keeps P (eachBlockParser nested enclosing budget start) fun n => ∀ e ∈ n.expressions, Q e := by
  rw [eachBlockParser]
  simp only [discard_bind]
  refine .bind hexpr fun iterable hiterable => .bind (.takeWord h) fun _ _ => ?_
  refine .ite (fun _ => .bind (Q := fun _ => False) .failExpecting fun _ hfalse => hfalse.elim) fun _ => ?_
  refine .bind (Pattern.parser_keeps h) fun item _ => .bind (.takeSymbol h) fun _ _ => ?_
  have hindex : ∀ index : Option Ident, Keeps P (pure index) fun _ => True := fun _ => .pure trivial
  refine .ite (fun _ => .bind (.name h) fun _ _ => .bind (hindex _) ?_) fun _ => .bind (hindex _) ?_
  all_goals
    refine fun _ _ => .bind (.expectClose h) fun _ _ => .bind (hnested _) fun body hbody => ?_
    refine .bind (fallback_keeps h hnested budget (List.forall_mem_nil _)) fun r hr => .pure ?_
    simp only [Node.expressions, List.forall_mem_cons, List.forall_mem_append]
    exact ⟨hiterable, hbody, hr⟩

theorem tagParser_keeps (budget : Nat) (start : Span) (name : String) :
    Keeps P (tagParser nested enclosing budget start name) fun n => ∀ e ∈ n.expressions, Q e := by
  rw [tagParser]
  refine .bind (Attribute.list_keeps h hexpr budget (List.forall_mem_nil _)) fun r hr => ?_
  refine .bind (Attribute.checkLiteral_keeps _ _) fun _ _ => .ite (fun _ => .pure ?_) fun _ => ?_
  · simp only [Node.expressions, expressionsAll, List.append_nil]
    exact hr
  · refine .bind (hnested _) fun children hchildren => .bind (.takeRequired h) fun _ _ => .pure ?_
    simp only [Node.expressions, List.forall_mem_append]
    exact ⟨hr, hchildren⟩

end

theorem list_keeps (budget : Nat) (enclosing : List Construct) :
    Keeps P (list budget enclosing) fun nodes => ∀ e ∈ expressionsAll nodes, Q e := by
  induction budget generalizing enclosing with
  | zero => exact .failAtEnd
  | succ budget ih =>
    unfold list
    simp only [discard_bind]
    have hrest : ∀ node : Node, (∀ e ∈ node.expressions, Q e) → Keeps P
        (do let nodes ← list budget enclosing; pure (node :: nodes))
        fun nodes => ∀ e ∈ expressionsAll nodes, Q e := by
      refine fun node hnode => .bind (ih _) fun nodes hnodes => .pure ?_
      simp only [expressionsAll, List.forall_mem_append]
      exact ⟨hnode, hnodes⟩
    refine .bind .peek fun found _ => ?_
    split
    · split
      · exact .pure (List.forall_mem_nil _)
      · exact .failAtEnd
    · split
      · exact .bind (.take h) fun _ _ => hrest (.text ..) (List.forall_mem_nil _)
      · refine .bind (.take h) fun _ _ => .bind hexpr fun value hvalue => ?_
        exact .bind (.expectClose h) fun last _ =>
          hrest (.mustache _ value) (List.forall_mem_singleton.2 hvalue)
      · refine .bind (.take h) fun _ _ => .ite (fun _ => ?_) fun _ => .ite (fun _ => ?_) fun _ => ?_
        · exact .bind (ifBlockParser_keeps h hexpr ih _ _) hrest
        · exact .bind (eachBlockParser_keeps h hexpr ih _ _) hrest
        · exact .bind (Q := fun _ => False) .fail fun _ hfalse => hfalse.elim
      · exact .bind (checkBranch_keeps _) fun _ _ => .pure (List.forall_mem_nil _)
      · exact .ite (fun _ => .pure (List.forall_mem_nil _)) fun _ => .fail
      · exact .bind (.take h) fun _ _ => .bind (tagParser_keeps h hexpr ih _ _ _) hrest
      · exact .ite (fun _ => .pure (List.forall_mem_nil _)) fun _ => .fail
      · exact .fail

omit hexpr in
theorem configParser_keeps : Keeps P configParser fun nodes => expressionsAll nodes = [] := by
  rw [configParser]
  simp only [discard_bind]
  refine .bind .peek fun found _ => ?_
  split
  · refine .bind (.take h) fun _ _ => ?_
    split
    · exact .pure rfl
    · exact .fail
  · exact .pure rfl

end Node

theorem Document.parser_keeps : Keeps P Document.parser fun d => ∀ e ∈ d.expressions, Q e := by
  rw [Document.parser]
  refine .bind (Node.configParser_keeps h) fun opening hopening => .budget_bind fun budget => ?_
  refine .bind (Node.list_keeps h hexpr budget []) fun nodes hnodes => .pure ?_
  rwa [Document.expressions, Node.expressionsAll_append, hopening, List.nil_append]

end PromptTemplate
