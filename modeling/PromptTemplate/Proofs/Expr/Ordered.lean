import PromptTemplate.Expr.Parser
import PromptTemplate.Proofs.Parser.Ordered
import PromptTemplate.Proofs.Syntax.Layout

/-!
# Expressions go forward

Every level of the grammar makes one piece of the tokens that it takes, which
is the layout of the expression. Its span goes from the first of the pieces
that it is made of to the last one.
-/

namespace PromptTemplate.Expr

open PromptTemplate.Parser
open Outline (Row leaf)

variable {nested : Parser Expr} (hnested : Ordered [] nested fun e => [e.layout])
include hnested

theorem elements_ordered {close : Symbol} (budget : Nat) :
    Ordered [] (elements nested close budget) fun r => Element.layouts r.1 ++ [leaf r.2] := by
  induction budget with
  | zero => exact .failAtEnd
  | succ budget ih =>
    rw [elements]
    refine .bind .takeSymbol fun found => ?_
    cases found with
    | some token => exact .pure fun _ _ => id
    | none =>
      refine .skip .takeSymbol fun spread => .bind hnested fun value => ?_
      have hcons : ∀ rest : List Element, Element.layouts
          ((if spread.isSome then .spread value else .single value) :: rest) =
            value.layout :: Element.layouts rest := by
        intro rest
        split <;> rfl
      refine .skip .takeSymbol fun comma => ?_
      cases comma with
      | none =>
        refine .bind .expectSymbol fun last => .pure fun _ _ hrow => ?_
        rw [hcons]
        exact hrow
      | some token =>
        refine .bind ih fun more => .pure fun _ _ hrow => ?_
        rw [hcons]
        exact hrow

theorem entry_ordered : Ordered [] (entry nested) fun e => Entry.layouts [e] := by
  rw [entry]
  refine .skip .takeSymbol fun spread => .ite (fun _ => ?_) fun _ => ?_
  · exact .bind hnested fun value => .pure fun _ _ => id
  refine .bind .takeRequired fun token => ?_
  split
  · refine .seq .peekKind fun k => .ite (fun _ => ?_) fun _ => .pure fun _ _ => id
    simp only [discard_bind]
    refine .skip .expectSymbol fun _ => .bind hnested fun value => ?_
    exact .pure fun _ _ hrow => hrow.sublist (List.sublist_cons_self ..)
  · simp only [discard_bind]
    refine .skip .expectSymbol fun _ => .bind hnested fun value => ?_
    exact .pure fun _ _ hrow => hrow.sublist (List.sublist_cons_self ..)
  · simp only [discard_bind]
    refine .bind hnested fun key => .skip .expectSymbol fun _ => .skip .expectSymbol fun _ => ?_
    refine .bind hnested fun value => ?_
    exact .pure fun _ _ hrow => hrow.sublist (List.sublist_cons_self ..)
  · exact .fail

theorem entries_ordered (budget : Nat) :
    Ordered [] (entries nested budget) fun r => Entry.layouts r.1 ++ [leaf r.2] := by
  induction budget with
  | zero => exact .failAtEnd
  | succ budget ih =>
    rw [entries]
    refine .bind .takeSymbol fun found => ?_
    cases found with
    | some token => exact .pure fun _ _ => id
    | none =>
      refine .bind (entry_ordered hnested) fun first => .skip .takeSymbol fun comma => ?_
      cases comma with
      | none => exact .bind .expectSymbol fun last => .pure fun _ _ => id
      | some token =>
        refine .bind ih fun more => .pure fun _ _ hrow => ?_
        rw [Entry.layouts_cons, List.append_assoc]
        exact hrow

omit hnested in
theorem ofWord_layout (span : Span) (word : String) : (ofWord span word).layout = leaf span := by
  unfold ofWord
  split
  · rfl
  · split
    · rfl
    · split <;> rfl

theorem primary_ordered (budget : Nat) :
    Ordered [] (primary nested budget) fun e => [e.layout] := by
  rw [primary]
  refine .bind .takeRequired fun token => ?_
  split
  · exact .pure fun _ _ => id
  · exact .pure fun _ _ => id
  · rename_i word _
    refine .pure fun _ _ hrow => ?_
    rw [ofWord_layout]
    exact hrow
  · simp only [discard_bind]
    refine .bind hnested fun inner => .skip .expectSymbol fun _ => ?_
    exact .pure fun _ _ hrow => hrow.sublist (List.sublist_cons_self ..)
  · refine .bind (elements_ordered hnested budget) fun r => .pure fun _ _ hrow => ?_
    exact hrow.join _ rfl (by simp)
  · refine .bind (entries_ordered hnested budget) fun r => .pure fun _ _ hrow => ?_
    exact hrow.join _ rfl (by simp)
  · exact .fail

theorem bracketKey_ordered :
    Ordered [] (bracketKey nested) fun r => r.1.layouts ++ [leaf r.2] :=
  .bind hnested fun _ => .bind .expectSymbol fun _ => .pure fun _ _ => id

omit hnested in
theorem namedKey_ordered : Ordered [] namedKey fun r => r.1.layouts ++ [leaf r.2] :=
  .bind .name fun _ => .pure fun _ _ => id

theorem links_ordered (budget : Nat) (base : Expr) :
    Ordered [base.layout] (links nested budget base) fun e => [e.layout] := by
  induction budget generalizing base with
  | zero => exact .failAtEnd
  | succ budget ih =>
    -- The base and its link are one piece from here on.
    have hlink : ∀ (optional : Bool) (r : Property × Span),
        Ordered ([base.layout] ++ (r.1.layouts ++ [leaf r.2]))
          (links nested budget (.member (base.span.join r.2) base r.1 optional))
          fun e => [e.layout] :=
      fun _ _ => (ih _).weaken fun _ _ hrow => hrow.join _ (by simp) (by simp)
    rw [links]
    simp only [discard_bind]
    refine .seq .peekKind fun k => ?_
    split
    · exact .skip .take fun _ => .bind namedKey_ordered fun r => hlink _ r
    · refine .skip .take fun _ => .skip .takeSymbol fun _ => .ite (fun _ => ?_) fun _ => ?_
      · exact .bind (bracketKey_ordered hnested) fun r => hlink _ r
      · exact .bind namedKey_ordered fun r => hlink _ r
    · exact .skip .take fun _ => .bind (bracketKey_ordered hnested) fun r => hlink _ r
    · refine .skip .take fun _ => .bind (elements_ordered hnested _) fun r => ?_
      refine (ih _).weaken fun _ _ hrow => ?_
      have hstop : (base.span.join r.2).stop = r.2.stop := by simpa using hrow.join_stop
      -- Of the closing token the call keeps the end only.
      rw [← List.append_assoc] at hrow
      have hcut := hrow.cut hstop
      rw [List.append_assoc] at hcut
      exact hcut.join _ (by simp [Span.join, Span.last]) (by simp)
    · exact .pure fun _ _ => id

theorem updated_ordered (budget : Nat) :
    Ordered [] (updated nested budget) fun e => [e.layout] := by
  rw [updated]
  refine .seq (primary_ordered hnested budget) fun base => ?_
  refine .seq (links_ordered hnested budget base) fun target => .seq .peekKind fun k => ?_
  split
  · refine .bind .takeRequired fun token => .pure fun _ _ hrow => ?_
    exact hrow.join [] (by simp) (by simp)
  · exact .pure fun _ _ => id

theorem prefixed_ordered (budget : Nat) :
    Ordered [] (prefixed nested budget) fun e => [e.layout] := by
  induction budget with
  | zero => exact .failAtEnd
  | succ budget ih =>
    rw [prefixed]
    simp only [discard_bind]
    refine .peek_bind fun found first => ?_
    cases found with
    | none => exact .failAtEnd
    | some token =>
      dsimp only
      split
      · refine Ordered.take_facing (.bind ih fun operand => .pure fun _ _ hrow => ?_)
        exact hrow.join [] (by simp) (by simp)
      · refine Ordered.take_facing (.bind ih fun target => .pure fun _ _ hrow => ?_)
        exact hrow.join [] (by simp) (by simp)
      · exact (updated_ordered hnested _).facing

theorem powers_ordered (budget : Nat) : Ordered [] (powers nested budget) fun e => [e.layout] := by
  induction budget with
  | zero => exact .failAtEnd
  | succ budget ih =>
    rw [powers]
    refine .seq (prefixed_ordered hnested _) fun base => .skip .takeSymbol fun found => ?_
    cases found with
    | none => exact .pure fun _ _ => id
    | some token =>
      refine .bind ih fun exponent => .pure fun _ _ hrow => ?_
      exact hrow.join [] (by simp) (by simp)

omit hnested in
theorem operations_ordered {operand : Parser Expr}
    (hoperand : Ordered [] operand fun e => [e.layout]) (level budget : Nat) (left : Expr) :
    Ordered [left.layout] (operations operand level budget left) fun e => [e.layout] := by
  induction budget generalizing left with
  | zero => exact .failAtEnd
  | succ budget ih =>
    rw [operations]
    simp only [discard_bind]
    have hpeek : Ordered [left.layout] (peekOperator level) fun _ => [left.layout] :=
      .seq .peekKind fun _ => .pure fun _ _ => id
    refine .seq hpeek fun op => ?_
    cases op with
    | none => exact .pure fun _ _ => id
    | some op =>
      refine .skip .take fun _ => .bind hoperand fun right => (ih _).weaken fun _ _ hrow => ?_
      exact hrow.join [] (by simp) (by simp)

theorem binaries_ordered (budget : Nat) :
    Ordered [] (binaries nested budget) fun e => [e.layout] := by
  have hlevels : ∀ levels : List Nat, Ordered []
      (levels.foldr (leftGrouped budget) (powers nested budget)) fun e => [e.layout] := by
    intro levels
    induction levels with
    | nil => exact powers_ordered hnested budget
    | cons level levels ih => exact .seq ih fun left => operations_ordered ih level budget left
  exact hlevels _

theorem conditionals_ordered (budget : Nat) :
    Ordered [] (conditionals nested budget) fun e => [e.layout] := by
  rw [conditionals]
  simp only [discard_bind]
  refine .seq (binaries_ordered hnested budget) fun test => .skip .takeSymbol fun found => ?_
  cases found with
  | none => exact .pure fun _ _ => id
  | some token =>
    refine .bind hnested fun consequent => .skip .expectSymbol fun _ => ?_
    refine .bind hnested fun alternate => .pure fun _ _ hrow => ?_
    exact hrow.join [consequent.layout] (by simp) (by simp)

omit hnested in
theorem assignments_ordered (budget : Nat) :
    Ordered [] (assignments budget) fun e => [e.layout] := by
  induction budget with
  | zero => exact .failAtEnd
  | succ budget ih =>
    rw [assignments]
    simp only [discard_bind]
    refine .seq (conditionals_ordered ih _) fun target => .seq .peekKind fun k => ?_
    split
    · exact .pure fun _ _ => id
    · refine .skip .take fun _ => .bind ih fun value => .pure fun _ _ hrow => ?_
      exact hrow.join [] (by simp) (by simp)

omit hnested in
theorem parser_layout : Ordered [] Expr.parser fun e => [e.layout] :=
  .budget_bind assignments_ordered

omit hnested in
theorem parser_ordered : Ordered [] Expr.parser fun e => [e.outline] := fun first =>
  (parser_layout first).mono (fun _ => id) fun _ _ ⟨last, hrow, hleft⟩ => ⟨last, hrow.outline, hleft⟩

end PromptTemplate.Expr
