import PromptTemplate.Expr.Parser
import PromptTemplate.Proofs.Parser.Reads
import PromptTemplate.Proofs.Syntax.Words

/-!
# The levels of the expression grammar

The parser of a level reads what the level below it reads, if nothing of its
own follows (`assignments_pass` and the others). Each form of expression is
read on its own level, if its parts are read on the levels they belong to.
-/

namespace PromptTemplate.Expr

open PromptTemplate.Parser

variable {nested : Parser Expr} {budget : Nat} {ahead : Option TokenKind → Prop} {Q : Expr → Prop}

-- ---------------------------------------------------------------------------
-- What may follow
-- ---------------------------------------------------------------------------

def isLink : TokenKind → Bool
  | .symbol .dot | .symbol .optionalDot | .symbol .bracketOpen | .symbol .parenOpen => true
  | _ => false

/-- Neither a link nor an update follows. -/
def AfterOperand (k : Option TokenKind) : Prop :=
  k.any isLink = false ∧ k.bind UpdateOp.ofToken? = none

/-- Nor a power, nor an operator of one of the levels. -/
def AfterLevels (levels : List Nat) (k : Option TokenKind) : Prop :=
  AfterOperand k ∧ ∀ op, k.bind BinaryOp.ofToken? = some op → op ≠ .power ∧ op.level ∉ levels

/-- Nor any binary operator, nor a question mark. -/
def AfterTest (k : Option TokenKind) : Prop :=
  AfterLevels (List.range BinaryOp.power.level) k ∧ k ≠ some (.symbol .question)

/-- Nothing follows that an expression could go on with. -/
def Ends (k : Option TokenKind) : Prop :=
  AfterOperand k ∧ k.bind BinaryOp.ofToken? = none ∧ k ≠ some (.symbol .question) ∧
    k.bind AssignOp.ofToken? = none

theorem Ends.afterTest {k : Option TokenKind} (h : Ends k) : AfterTest k := by
  refine ⟨⟨h.1, fun op hop => ?_⟩, h.2.2.1⟩
  rw [h.2.1] at hop
  cases hop

theorem afterOperand_binary (op : BinaryOp) : AfterOperand (some op.word) := by
  cases op <;> exact ⟨rfl, rfl⟩

theorem afterOperand_assign (op : AssignOp) : AfterOperand (some op.word) := by
  cases op <;> exact ⟨rfl, rfl⟩

-- ---------------------------------------------------------------------------
-- Levels
-- ---------------------------------------------------------------------------

theorem links_nil {base : Expr} (h : Q base) :
    Reads (links nested (budget + 1) base) [] (fun k => k.any isLink = false) Q := by
  refine Reads.look Reads.peekKind (fun _ => id) fun k hk => ?_
  split
  · cases hk
  · cases hk
  · cases hk
  · cases hk
  · exact Reads.pure h

section
variable {kinds : List TokenKind}

theorem updated_pass
    (h : Reads (primary nested (budget + 1) >>= links nested (budget + 1)) kinds
      (fun k => k.any isLink = false) Q) :
    Reads (updated nested (budget + 1)) kinds AfterOperand Q := by
  rw [updated, ← bind_assoc]
  refine Reads.last h (fun _ hk => hk.1) fun target htarget => ?_
  refine Reads.look Reads.peekKind (fun _ => id) fun k hk => ?_
  rw [hk.2]
  exact Reads.pure htarget

theorem updated_after (op : UpdateOp)
    (h : Reads (primary nested (budget + 1) >>= links nested (budget + 1)) kinds
      (fun k => k.any isLink = false) Q) :
    Reads (updated nested (budget + 1)) (kinds ++ [op.word]) ahead
      fun a => ∃ target span, Q target ∧ a = .update span op .after target := by
  rw [updated, ← bind_assoc]
  refine Reads.bind h (by rintro _ rfl; cases op <;> rfl) fun target htarget => ?_
  refine Reads.look Reads.peekKind (fun _ => id) ?_
  rintro _ rfl
  simp only [Option.bind_some, UpdateOp.ofToken?_word]
  exact Reads.step Reads.takeRequired fun token _ => Reads.pure ⟨target, _, htarget, rfl⟩

/-- Without an operator in front there is only what follows one. -/
theorem prefixed_pass {kind : TokenKind} (hunary : unaryOp? kind = none)
    (hupdate : UpdateOp.ofToken? kind = none)
    (h : Reads (updated nested (budget + 1)) (kind :: kinds) ahead Q) :
    Reads (prefixed nested (budget + 1)) (kind :: kinds) ahead Q := by
  rw [prefixed]
  refine Reads.look Reads.peek (fun _ => id) fun found hfound => ?_
  obtain ⟨token, rfl, rfl⟩ := Option.map_eq_some_iff.mp hfound
  simp only [hunary, hupdate]
  exact h

theorem prefixed_unary (op : UnaryOp) (h : Reads (prefixed nested budget) kinds ahead Q) :
    Reads (prefixed nested (budget + 1)) (op.word :: kinds) ahead
      fun a => ∃ operand span, Q operand ∧ a = .unary span op operand := by
  have hop : unaryOp? op.word = some op := by cases op <;> rfl
  rw [prefixed]
  refine Reads.look Reads.peek (fun _ => id) fun found hfound => ?_
  obtain ⟨token, rfl, hkind⟩ := Option.map_eq_some_iff.mp hfound
  simp only [hkind, hop, discard_bind]
  refine Reads.step Reads.take fun _ _ => Reads.last h (fun _ => id) fun operand hoperand => ?_
  exact Reads.pure ⟨operand, _, hoperand, rfl⟩

theorem prefixed_before (op : UpdateOp) (h : Reads (prefixed nested budget) kinds ahead Q) :
    Reads (prefixed nested (budget + 1)) (op.word :: kinds) ahead
      fun a => ∃ target span, Q target ∧ a = .update span op .before target := by
  have hop : unaryOp? op.word = none := by cases op <;> rfl
  rw [prefixed]
  refine Reads.look Reads.peek (fun _ => id) fun found hfound => ?_
  obtain ⟨token, rfl, hkind⟩ := Option.map_eq_some_iff.mp hfound
  simp only [hkind, hop, UpdateOp.ofToken?_word, discard_bind]
  refine Reads.step Reads.take fun _ _ => Reads.last h (fun _ => id) fun target htarget => ?_
  exact Reads.pure ⟨target, _, htarget, rfl⟩

theorem powers_pass (h : Reads (prefixed nested (budget + 1)) kinds AfterOperand Q) :
    Reads (powers nested (budget + 1)) kinds (AfterLevels []) Q := by
  rw [powers]
  refine Reads.last h (fun _ hk => hk.1) fun base hbase => ?_
  refine Reads.look Reads.takeSymbol_none (fun k hk => ?_) ?_
  · rintro rfl
    exact (hk.2 .power rfl).1 rfl
  · rintro _ rfl
    exact Reads.pure hbase

theorem powers_power {more : List TokenKind} {R : Expr → Prop}
    (hbase : Reads (prefixed nested (budget + 1)) kinds AfterOperand Q)
    (hexponent : Reads (powers nested budget) more ahead R) :
    Reads (powers nested (budget + 1)) (kinds ++ BinaryOp.power.word :: more) ahead
      fun a => ∃ base exponent span, Q base ∧ R exponent ∧ a = .binary span .power base exponent := by
  rw [powers]
  refine Reads.bind hbase (by rintro _ rfl; exact afterOperand_binary .power) fun base hbase => ?_
  refine Reads.step Reads.takeSymbol fun found hfound => ?_
  obtain ⟨token, rfl⟩ := Option.isSome_iff_exists.mp hfound
  refine Reads.last hexponent (fun _ => id) fun exponent hexponent => ?_
  exact Reads.pure ⟨base, exponent, _, hbase, hexponent, rfl⟩

theorem operations_nil {operand : Parser Expr} {level : Nat} {levels : List Nat} {left : Expr}
    (h : Q left) : Reads (operations operand level (budget + 1) left) []
      (AfterLevels (level :: levels)) Q := by
  rw [operations, peekOperator, bind_assoc]
  refine Reads.look Reads.peekKind (fun _ => id) fun k hk => ?_
  have hnone : (k.bind BinaryOp.ofToken?).filter (·.level = level) = none := by
    rw [Option.filter_eq_none_iff]
    intro op hop hlevel
    exact (hk.2 op hop).2 (by simp_all)
  simp only [pure_bind, hnone]
  exact Reads.pure h

theorem grouped_pass {operand : Parser Expr} {level : Nat} {levels : List Nat}
    (h : Reads operand kinds (AfterLevels levels) Q) :
    Reads (leftGrouped (budget + 1) level operand) kinds (AfterLevels (level :: levels)) Q := by
  refine Reads.last h (fun k hk => ⟨hk.1, fun op hop => ?_⟩) fun left hleft => operations_nil hleft
  obtain ⟨hpower, hlevels⟩ := hk.2 op hop
  exact ⟨hpower, fun hmem => hlevels (List.mem_cons_of_mem _ hmem)⟩

theorem groups_pass {operand : Parser Expr} {levels : List Nat}
    (h : Reads operand kinds (AfterLevels levels) Q) (outer : List Nat) :
    Reads (outer.foldr (leftGrouped (budget + 1)) operand) kinds (AfterLevels (outer ++ levels)) Q := by
  induction outer with
  | nil => exact h
  | cons level outer ih => exact grouped_pass ih

theorem grouped_binary {operand : Parser Expr} {levels : List Nat} {op : BinaryOp}
    {more : List TokenKind} {R : Expr → Prop} (hpower : op ≠ .power) (hlevel : op.level ∉ levels)
    (hleft : Reads operand kinds (AfterLevels levels) Q)
    (hright : Reads operand more (AfterLevels levels) R) :
    Reads (leftGrouped (budget + 2) op.level operand) (kinds ++ op.word :: more)
      (AfterLevels (op.level :: levels))
      fun a => ∃ left right span, Q left ∧ R right ∧ a = .binary span op left right := by
  rw [leftGrouped]
  refine Reads.bind hleft ?_ fun left hleft => ?_
  · rintro _ rfl
    refine ⟨afterOperand_binary op, fun other hother => ?_⟩
    rw [Option.bind_some, BinaryOp.ofToken?_word] at hother
    cases hother
    exact ⟨hpower, hlevel⟩
  · rw [operations, peekOperator, bind_assoc]
    refine Reads.look Reads.peekKind (fun _ => id) ?_
    rintro _ rfl
    simp only [pure_bind, Option.bind_some, BinaryOp.ofToken?_word, Option.filter_some, decide_true,
      if_true, discard_bind]
    refine Reads.step Reads.take fun _ _ => Reads.last hright (fun k hk => ⟨hk.1, fun op hop => ?_⟩)
      fun right hright => operations_nil ⟨left, right, _, hleft, hright, rfl⟩
    obtain ⟨hpower, hlevels⟩ := hk.2 op hop
    exact ⟨hpower, fun hmem => hlevels (List.mem_cons_of_mem _ hmem)⟩

theorem binaries_pass (h : Reads (powers nested (budget + 1)) kinds (AfterLevels []) Q) :
    Reads (binaries nested (budget + 1)) kinds (AfterLevels (List.range BinaryOp.power.level)) Q :=
  (groups_pass h _).mono (fun k hk => by rwa [List.append_nil]) fun _ => id

theorem binaries_binary {op : BinaryOp} {more : List TokenKind} {R : Expr → Prop}
    (hpower : op ≠ .power) (hleft : Reads (powers nested (budget + 2)) kinds (AfterLevels []) Q)
    (hright : Reads (powers nested (budget + 2)) more (AfterLevels []) R) :
    Reads (binaries nested (budget + 2)) (kinds ++ op.word :: more)
      (AfterLevels (List.range BinaryOp.power.level))
      fun a => ∃ left right span, Q left ∧ R right ∧ a = .binary span op left right := by
  have hlevel : op.level ∈ List.range BinaryOp.power.level := by
    cases op <;> first | decide | exact absurd rfl hpower
  obtain ⟨outer, inner, hsplit⟩ := List.append_of_mem hlevel
  have hinner : op.level ∉ inner := by
    have hnodup := List.nodup_range (n := BinaryOp.power.level)
    rw [hsplit, List.nodup_append] at hnodup
    exact (List.nodup_cons.mp hnodup.2.1).1
  have hpass : ∀ {kinds Q}, Reads (powers nested (budget + 2)) kinds (AfterLevels []) Q →
      Reads (inner.foldr (leftGrouped (budget + 2)) (powers nested (budget + 2))) kinds
        (AfterLevels inner) Q :=
    fun h => (groups_pass h inner).mono (fun k hk => by rwa [List.append_nil]) fun _ => id
  have hsame : ∀ k, AfterLevels (List.range BinaryOp.power.level) k →
      AfterLevels (outer ++ op.level :: inner) k := fun k hk => hsplit ▸ hk
  rw [binaries]
  refine Reads.mono ?_ hsame fun _ => id
  rw [hsplit, List.foldr_append, List.foldr_cons]
  exact groups_pass (grouped_binary hpower hinner (hpass hleft) (hpass hright)) outer

theorem conditionals_pass (h : Reads (binaries nested (budget + 1)) kinds
      (AfterLevels (List.range BinaryOp.power.level)) Q) :
    Reads (conditionals nested (budget + 1)) kinds AfterTest Q := by
  rw [conditionals]
  refine Reads.last h (fun _ hk => hk.1) fun test htest => ?_
  refine Reads.look Reads.takeSymbol_none (fun _ hk => hk.2) ?_
  rintro _ rfl
  exact Reads.pure htest

theorem conditionals_conditional {yes no : List TokenKind} {R S : Expr → Prop}
    (htest : Reads (binaries nested (budget + 1)) kinds
      (AfterLevels (List.range BinaryOp.power.level)) Q)
    (hyes : Reads nested yes Ends R) (hno : Reads nested no Ends S) :
    Reads (conditionals nested (budget + 1))
      (kinds ++ .symbol .question :: yes ++ .symbol .colon :: no) Ends
      fun a => ∃ test consequent alternate span, Q test ∧ R consequent ∧ S alternate ∧
        a = .conditional span test consequent alternate := by
  rw [conditionals, List.append_assoc, List.cons_append]
  refine Reads.bind htest ?_ fun test htest => ?_
  · rintro _ rfl
    exact ⟨⟨rfl, rfl⟩, by simp [BinaryOp.ofToken?, BinaryOp.ofSymbol?]⟩
  · refine Reads.step Reads.takeSymbol fun found hfound => ?_
    obtain ⟨token, rfl⟩ := Option.isSome_iff_exists.mp hfound
    simp only [discard_bind]
    refine Reads.bind hyes ?_ fun consequent hconsequent => ?_
    · rintro _ rfl
      exact ⟨⟨rfl, rfl⟩, rfl, by simp, rfl⟩
    · refine Reads.step Reads.expectSymbol fun _ _ => ?_
      refine Reads.last hno (fun _ => id) fun alternate halternate => ?_
      exact Reads.pure ⟨test, consequent, alternate, _, htest, hconsequent, halternate, rfl⟩

theorem assignments_pass (h : Reads (conditionals (assignments budget) (budget + 1)) kinds Ends Q) :
    Reads (assignments (budget + 1)) kinds Ends Q := by
  rw [assignments]
  refine Reads.last h (fun _ => id) fun target htarget => ?_
  refine Reads.look Reads.peekKind (fun _ => id) fun k hk => ?_
  rw [hk.2.2.2]
  exact Reads.pure htarget

theorem assignments_assignment {op : AssignOp} {more : List TokenKind} {R : Expr → Prop}
    (htarget : Reads (conditionals (assignments budget) (budget + 1)) kinds AfterTest Q)
    (hvalue : Reads (assignments budget) more Ends R) :
    Reads (assignments (budget + 1)) (kinds ++ op.word :: more) Ends
      fun a => ∃ target value span, Q target ∧ R value ∧ a = .assignment span op target value := by
  rw [assignments]
  refine Reads.bind htarget ?_ fun target htarget => ?_
  · rintro _ rfl
    refine ⟨⟨afterOperand_assign op, ?_⟩, ?_⟩
    · cases op <;> simp [AssignOp.word, BinaryOp.ofToken?, BinaryOp.ofSymbol?]
    · cases op <;> simp [AssignOp.word]
  · refine Reads.look Reads.peekKind (fun _ => id) ?_
    rintro _ rfl
    simp only [Option.bind_some, AssignOp.ofToken?_word, discard_bind]
    refine Reads.step Reads.take fun _ _ => Reads.last hvalue (fun _ => id) fun value hvalue => ?_
    exact Reads.pure ⟨target, value, _, htarget, hvalue, rfl⟩

end

end PromptTemplate.Expr
