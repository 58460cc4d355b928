import PromptTemplate.Expr.Parser
import PromptTemplate.Proofs.Parser.Located
import PromptTemplate.Proofs.Syntax.Spans

/-!
# Where expressions stand

Every level of the grammar gives an expression whose spans are spans of
tokens or their joins, and fails at one of these.
-/

namespace PromptTemplate.Expr

open PromptTemplate.Parser

variable {P : Span → Prop} (hjoin : ∀ {first last : Span}, P first → P last → P (first.join last))
  {nested : Parser Expr} (hnested : Located P nested (Expr.Spanned P))
include hnested

omit hjoin in
theorem elements_located {close : Symbol} (budget : Nat) :
    Located P (elements nested close budget) fun r => Element.AllSpanned P r.1 ∧ P r.2 := by
  induction budget with
  | zero => exact .failAtEnd
  | succ budget ih =>
    rw [elements]
    refine .bind .takeSymbol fun found hfound => ?_
    cases found with
    | some token => exact .pure ⟨trivial, hfound token rfl⟩
    | none =>
      refine .bind .takeSymbol fun spread _ => .bind hnested fun value hvalue => ?_
      have hall : ∀ {rest : List Element}, Element.AllSpanned P rest → Element.AllSpanned P
          ((if spread.isSome then .spread value else .single value) :: rest) := by
        intro rest hrest
        split <;> exact ⟨hvalue, hrest⟩
      refine .bind .takeSymbol fun comma _ => ?_
      cases comma with
      | none => exact .bind .expectSymbol fun last hlast => .pure ⟨hall trivial, hlast⟩
      | some token => exact .bind ih fun more hmore => .pure ⟨hall hmore.1, hmore.2⟩

theorem entry_located : Located P (entry nested) fun e => Entry.AllSpanned P [e] := by
  rw [entry]
  refine .bind .takeSymbol fun spread _ => .ite (fun _ => ?_) fun _ => ?_
  · exact .bind hnested fun value hvalue => .pure ⟨hvalue, trivial⟩
  refine .bind .takeRequired fun token htoken => ?_
  split
  · refine .bind .peekKind fun k _ => .ite (fun _ => ?_) fun _ => ?_
    · simp only [discard_bind]
      exact .bind .expectSymbol fun _ _ => .bind hnested fun value h => .pure ⟨h, trivial⟩
    · exact .pure ⟨htoken, trivial⟩
  · simp only [discard_bind]
    exact .bind .expectSymbol fun _ _ => .bind hnested fun value h => .pure ⟨h, trivial⟩
  · simp only [discard_bind]
    refine .bind hnested fun key hkey => .bind .expectSymbol fun _ _ => ?_
    refine .bind .expectSymbol fun _ _ => .bind hnested fun value h => ?_
    exact .pure ⟨hkey, h, trivial⟩
  · exact .fail htoken

theorem entries_located (budget : Nat) :
    Located P (entries nested budget) fun r => Entry.AllSpanned P r.1 ∧ P r.2 := by
  induction budget with
  | zero => exact .failAtEnd
  | succ budget ih =>
    rw [entries]
    refine .bind .takeSymbol fun found hfound => ?_
    cases found with
    | some token => exact .pure ⟨trivial, hfound token rfl⟩
    | none =>
      refine .bind (entry_located hnested) fun first hfirst => ?_
      have hall : ∀ {rest : List Entry}, Entry.AllSpanned P rest →
          Entry.AllSpanned P (first :: rest) := by
        intro rest hrest
        cases first <;> simp_all [Entry.AllSpanned]
      refine .bind .takeSymbol fun comma _ => ?_
      cases comma with
      | none => exact .bind .expectSymbol fun last hlast => .pure ⟨hall trivial, hlast⟩
      | some token => exact .bind ih fun more hmore => .pure ⟨hall hmore.1, hmore.2⟩

omit hnested in
theorem ofWord_spanned {span : Span} (h : P span) (word : String) : (ofWord span word).Spanned P := by
  unfold ofWord
  split
  · exact h
  · split
    · exact h
    · split <;> exact h

include hjoin

theorem primary_located (budget : Nat) :
    Located P (primary nested budget) (Expr.Spanned P) := by
  rw [primary]
  refine .bind .takeRequired fun token htoken => ?_
  split
  · exact .pure htoken
  · exact .pure htoken
  · exact .pure (ofWord_spanned htoken _)
  · simp only [discard_bind]
    exact .bind hnested fun inner h => .bind .expectSymbol fun _ _ => .pure h
  · exact .bind (elements_located hnested budget) fun r hr => .pure ⟨hjoin htoken hr.2, hr.1⟩
  · exact .bind (entries_located hnested budget) fun r hr => .pure ⟨hjoin htoken hr.2, hr.1⟩
  · exact .fail htoken

omit hjoin in
theorem bracketKey_located : Located P (bracketKey nested) fun r => r.1.Spanned P ∧ P r.2 :=
  .bind hnested fun _ h => .bind .expectSymbol fun _ hlast => .pure ⟨h, hlast⟩

omit hjoin hnested in
theorem namedKey_located : Located P namedKey fun r => r.1.Spanned P ∧ P r.2 :=
  .bind .name fun _ h => .pure ⟨trivial, h⟩

theorem links_located (budget : Nat) {base : Expr} (hbase : base.Spanned P) :
    Located P (links nested budget base) (Expr.Spanned P) := by
  induction budget generalizing base with
  | zero => exact .failAtEnd
  | succ budget ih =>
    have hlink : ∀ {optional : Bool} {r : Property × Span}, r.1.Spanned P ∧ P r.2 →
        (Expr.member (base.span.join r.2) base r.1 optional).Spanned P :=
      fun hr => ⟨hjoin hbase.own hr.2, hbase, hr.1⟩
    rw [links]
    simp only [discard_bind]
    refine .bind .peekKind fun k _ => ?_
    split
    · exact .bind .take fun _ _ => .bind namedKey_located fun r hr => ih (hlink hr)
    · refine .bind .take fun _ _ => .bind .takeSymbol fun _ _ => ?_
      refine .ite (fun _ => ?_) fun _ => ?_
      · exact .bind (bracketKey_located hnested) fun r hr => ih (hlink hr)
      · exact .bind namedKey_located fun r hr => ih (hlink hr)
    · exact .bind .take fun _ _ => .bind (bracketKey_located hnested) fun r hr => ih (hlink hr)
    · refine .bind .take fun _ _ => .bind (elements_located hnested _) fun r hr => ?_
      exact ih ⟨hjoin hbase.own hr.2, hbase, hr.1⟩
    · exact .pure hbase

theorem updated_located (budget : Nat) :
    Located P (updated nested budget) (Expr.Spanned P) := by
  rw [updated]
  refine .bind (primary_located hjoin hnested budget) fun base hbase => ?_
  refine .bind (links_located hjoin hnested budget hbase) fun target htarget => ?_
  refine .bind .peekKind fun k _ => ?_
  split
  · exact .bind .takeRequired fun token htoken => .pure ⟨hjoin htarget.own htoken, htarget⟩
  · exact .pure htarget

theorem prefixed_located (budget : Nat) :
    Located P (prefixed nested budget) (Expr.Spanned P) := by
  induction budget with
  | zero => exact .failAtEnd
  | succ budget ih =>
    rw [prefixed]
    simp only [discard_bind]
    refine .bind .peek fun found hfound => ?_
    cases found with
    | none => exact .failAtEnd
    | some token =>
      have htoken := hfound token rfl
      dsimp only
      split
      · exact .bind .take fun _ _ => .bind ih fun operand h => .pure ⟨hjoin htoken h.own, h⟩
      · exact .bind .take fun _ _ => .bind ih fun target h => .pure ⟨hjoin htoken h.own, h⟩
      · exact updated_located hjoin hnested _

theorem powers_located (budget : Nat) : Located P (powers nested budget) (Expr.Spanned P) := by
  induction budget with
  | zero => exact .failAtEnd
  | succ budget ih =>
    rw [powers]
    refine .bind (prefixed_located hjoin hnested _) fun base hbase => ?_
    refine .bind .takeSymbol fun found _ => ?_
    cases found with
    | none => exact .pure hbase
    | some token => exact .bind ih fun exponent h => .pure ⟨hjoin hbase.own h.own, hbase, h⟩

omit hnested in
theorem operations_located {operand : Parser Expr} (hoperand : Located P operand (Expr.Spanned P))
    (level budget : Nat) {left : Expr} (hleft : left.Spanned P) :
    Located P (operations operand level budget left) (Expr.Spanned P) := by
  induction budget generalizing left with
  | zero => exact .failAtEnd
  | succ budget ih =>
    rw [operations]
    simp only [discard_bind]
    have hpeek : Located P (peekOperator level) fun _ => True :=
      .bind .peekKind fun _ _ => .pure trivial
    refine .bind hpeek fun op _ => ?_
    cases op with
    | none => exact .pure hleft
    | some op =>
      refine .bind .take fun _ _ => .bind hoperand fun right hright => ?_
      exact ih ⟨hjoin hleft.own hright.own, hleft, hright⟩

theorem binaries_located (budget : Nat) :
    Located P (binaries nested budget) (Expr.Spanned P) := by
  have hlevels : ∀ levels : List Nat,
      Located P (levels.foldr (leftGrouped budget) (powers nested budget)) (Expr.Spanned P) := by
    intro levels
    induction levels with
    | nil => exact powers_located hjoin hnested budget
    | cons level levels ih =>
      exact .bind ih fun left hleft => operations_located hjoin ih level budget hleft
  exact hlevels _

theorem conditionals_located (budget : Nat) :
    Located P (conditionals nested budget) (Expr.Spanned P) := by
  rw [conditionals]
  simp only [discard_bind]
  refine .bind (binaries_located hjoin hnested budget) fun test htest => ?_
  refine .bind .takeSymbol fun found _ => ?_
  cases found with
  | none => exact .pure htest
  | some token =>
    refine .bind hnested fun consequent hyes => .bind .expectSymbol fun _ _ => ?_
    exact .bind hnested fun alternate hno =>
      .pure ⟨hjoin htest.own hno.own, htest, hyes, hno⟩

omit hnested in
theorem assignments_located (budget : Nat) :
    Located P (assignments budget) (Expr.Spanned P) := by
  induction budget with
  | zero => exact .failAtEnd
  | succ budget ih =>
    rw [assignments]
    simp only [discard_bind]
    refine .bind (conditionals_located hjoin ih _) fun target htarget => ?_
    refine .bind .peekKind fun k _ => ?_
    split
    · exact .pure htarget
    · refine .bind .take fun _ _ => .bind ih fun value h => ?_
      exact .pure ⟨hjoin htarget.own h.own, htarget, h⟩

omit hnested in
theorem parser_located : Located P Expr.parser (Expr.Spanned P) :=
  .budget_bind (assignments_located hjoin)

end PromptTemplate.Expr
