import PromptTemplate.Expr.Parser
import PromptTemplate.Proofs.Parser.Paired

/-!
# Two runs of the reader of expressions

Every level of the grammar makes of two streams of the same kinds the same
expression with other spans. Where one stream ends, a closing brace in the
other one is left alone. Between the braces of an expression the lexer stays
in the modes of the expression.
-/

namespace PromptTemplate.Expr

open PromptTemplate.Parser

variable {T : Pairing} {n k b b' depth : Nat} {outer : List Mode} {nested nested' : Parser Expr}

/-- In front of less than `n` tokens. -/
def Nested (T : Pairing) (n : Nat) (nested nested' : Parser Expr) : Prop :=
  ∀ k < n, ∀ depth outer, Paired T (T.At (.expression depth :: outer) k) nested nested'
    (T.Made (Expr.mapSpans T.span) (.expression depth :: outer) k)

theorem ofWord_mapSpans (f : Span → Span) (span : Span) (word : String) :
    (ofWord span word).mapSpans f = ofWord (f span) word := by
  unfold ofWord
  split
  · rfl
  · split
    · rfl
    · split <;> rfl

theorem isOperand_of_unaryOp? {kind : TokenKind} {op : UnaryOp} (h : unaryOp? kind = some op) :
    kind.isOperand := by
  unfold unaryOp? at h
  split at h <;> first | rfl | cases h

theorem isOperand_of_updateOp? {kind : TokenKind} {op : UpdateOp}
    (h : UpdateOp.ofToken? kind = some op) : kind.isOperand := by
  unfold UpdateOp.ofToken? at h
  split at h <;> first | rfl | cases h

theorem isOperand_of_assignOp? {kind : TokenKind} {op : AssignOp}
    (h : AssignOp.ofToken? kind = some op) : kind.isOperand := by
  unfold AssignOp.ofToken? at h
  split at h <;> first | rfl | cases h

theorem isOperand_of_binaryOp? {kind : TokenKind} {op : BinaryOp}
    (h : BinaryOp.ofToken? kind = some op) : kind.isOperand := by
  cases kind with
  | identifier => rfl
  | symbol symbol =>
    unfold TokenKind.isOperand
    refine decide_eq_true ⟨?_, ?_⟩ <;> rintro rfl <;> cases h
  | _ => cases h

section
variable (hnested : Nested T n nested nested')
include hnested

theorem elements_paired {close : Symbol} (hclose : (TokenKind.symbol close).isOperand)
    (hk : k < n) (hb : k < b) (hb' : k < b') :
    Paired T (T.At (.expression depth :: outer) k) (elements nested close b)
      (elements nested' close b')
      (T.Made (Prod.map (Element.mapSpansAll T.span) T.span) (.expression depth :: outer) k) := by
  induction b generalizing k b' with
  | zero => contradiction
  | succ b ih =>
    obtain _ | b' := b'
    · contradiction
    rw [elements, elements]
    refine .takeSymbol_bind (.operand hclose) ?_ fun last j hj => .made rfl (Nat.le_of_lt hj)
    refine .optional_bind (.operand rfl) fun spread j hj => ?_
    refine .bind_made (hnested j (by omega) _ _) fun value => ?_
    refine .takeSymbol_bind (.operand rfl) ?_ fun _ i hi => ?_
    · refine .expectSymbol_bind (.operand hclose) fun last i hi => ?_
      exact .made (by cases spread <;> rfl) (by omega)
    · refine .bind_made (ih (by omega) (by omega) (by omega)) fun more => ?_
      exact .made (by cases spread <;> rfl) (by omega)

theorem entry_paired (hk : k < n) :
    Paired T (T.At (.expression depth :: outer) k) (entry nested) (entry nested')
      (T.Made (Entry.mapSpans T.span) (.expression depth :: outer) k) := by
  rw [entry, entry]
  simp only [discard_bind]
  refine .takeSymbol_bind (.operand rfl) ?_ fun _ j hj => ?_
  · refine .takeRequired_bind (by decide) (fun _ _ _ _ => ⟨_, rfl⟩) fun token => ?_
    obtain ⟨kind, place⟩ := token
    dsimp only [Token.mapSpan]
    split
    · refine .past (.operand rfl) fun j hj => .peekKind_bind ?_ rfl fun token => .facing ?_
      · exact .made rfl (by omega)
      · refine .ite (fun _ => ?_) fun _ => .made rfl (by omega)
        refine .expectSymbol_bind (.operand rfl) fun _ i hi => ?_
        exact .bind_made (hnested i (by omega) _ _) fun value => .made rfl (by omega)
    · refine .past (.operand rfl) fun j hj => ?_
      refine .expectSymbol_bind (.operand rfl) fun _ i hi => ?_
      exact .bind_made (hnested i (by omega) _ _) fun value => .made rfl (by omega)
    · refine .past (.operand rfl) fun j hj => .bind_made (hnested j (by omega) _ _) fun key => ?_
      refine .expectSymbol_bind (.operand rfl) fun _ i hi => ?_
      refine .expectSymbol_bind (.operand rfl) fun _ i' hi' => ?_
      exact .bind_made (hnested i' (by omega) _ _) fun value => .made rfl (by omega)
    · exact .fail rfl place
  · exact .bind_made (hnested j (by omega) _ _) fun value => .made rfl (by omega)

/-- The last brace leads out of the object. -/
theorem entries_paired (hk : k < n) (hb : k < b) (hb' : k < b') :
    Paired T (T.At (.expression (depth + 1) :: outer) k) (entries nested b) (entries nested' b')
      (T.Made (Prod.map (Entry.mapSpansAll T.span) T.span) (.expression depth :: outer) k) := by
  induction b generalizing k b' with
  | zero => contradiction
  | succ b ih =>
    obtain _ | b' := b'
    · contradiction
    rw [entries, entries]
    refine .takeSymbol_bind .braceClose ?_ fun last j hj => .made rfl (Nat.le_of_lt hj)
    refine .bind_made (entry_paired hnested hk) fun first => ?_
    refine .takeSymbol_bind (.operand rfl) ?_ fun _ j hj => ?_
    · refine .expectSymbol_bind .braceClose fun last j hj => ?_
      exact .made (by cases first <;> rfl) (by omega)
    · refine .bind_made (ih (by omega) (by omega) (by omega)) fun more => ?_
      exact .made (by cases first <;> rfl) (by omega)

theorem primary_paired (hb : n ≤ b) (hb' : n ≤ b') :
    Paired T (T.At (.expression depth :: outer) n) (primary nested b) (primary nested' b')
      (T.Made (Expr.mapSpans T.span) (.expression depth :: outer) n) := by
  rw [primary, primary]
  simp only [discard_bind]
  refine .takeRequired_bind (by decide) (fun _ _ _ _ => ⟨_, rfl⟩) fun token => ?_
  obtain ⟨kind, place⟩ := token
  dsimp only [Token.mapSpan]
  split
  · exact .past (.operand rfl) fun j hj => .made rfl (by omega)
  · exact .past (.operand rfl) fun j hj => .made rfl (by omega)
  · exact .past (.operand rfl) fun j hj => .made (ofWord_mapSpans ..).symm (by omega)
  · refine .past (.operand rfl) fun j hj => .bind_made (hnested j hj _ _) fun inner => ?_
    exact .expectSymbol_bind (.operand rfl) fun _ i hi => .made rfl (by omega)
  · refine .past (.operand rfl) fun j hj => ?_
    refine .bind_made (elements_paired hnested rfl hj (by omega) (by omega)) fun found => ?_
    exact .made (by simp only [Prod.map, Expr.mapSpans, T.join]) (by omega)
  · refine .past .braceOpen fun j hj => ?_
    refine .bind_made (entries_paired hnested hj (by omega) (by omega)) fun found => ?_
    exact .made (by simp only [Prod.map, Expr.mapSpans, T.join]) (by omega)
  · exact .fail (by decide) place

theorem bracketKey_paired (hk : k < n) :
    Paired T (T.At (.expression depth :: outer) k) (bracketKey nested) (bracketKey nested')
      (T.Made (Prod.map (Property.mapSpans T.span) T.span) (.expression depth :: outer) k) := by
  refine .bind_made (hnested k hk _ _) fun key => ?_
  exact .expectSymbol_bind (.operand rfl) fun _ j hj => .made rfl (by omega)

omit hnested in
theorem namedKey_paired :
    Paired T (T.At (.expression depth :: outer) n) namedKey namedKey
      (T.Made (Prod.map (Property.mapSpans T.span) T.span) (.expression depth :: outer) n) :=
  .name_bind (fun _ => .operand rfl) fun _ _ j hj => .made rfl (by omega)

theorem links_paired (hk : k ≤ n) (hb : k < b) (hb' : k < b') (base : Expr) :
    Paired T (T.At (.expression depth :: outer) k) (links nested b base)
      (links nested' b' (base.mapSpans T.span))
      (T.Made (Expr.mapSpans T.span) (.expression depth :: outer) k) := by
  induction b generalizing k b' base with
  | zero => contradiction
  | succ b ih =>
    obtain _ | b' := b'
    · contradiction
    have hmember (optional : Bool) (found : Property × Span) {j : Nat} (hj : j < k) :
        Paired T (T.At (.expression depth :: outer) j)
          (links nested b (.member (base.span.join found.2) base found.1 optional))
          (links nested' b' (.member ((base.mapSpans T.span).span.join (T.span found.2))
            (base.mapSpans T.span) (found.1.mapSpans T.span) optional))
          (T.Made (Expr.mapSpans T.span) (.expression depth :: outer) k) := by
      rw [span_mapSpans, ← T.join]
      exact (ih (by omega) (by omega) (by omega)
        (.member (base.span.join found.2) base found.1 optional)).grow (by omega)
    rw [links, links]
    simp only [discard_bind]
    refine .peekKind_bind (.made rfl (Nat.le_refl k)) rfl fun token => ?_
    obtain ⟨kind, place⟩ := token
    dsimp only
    split
    next h =>
      obtain rfl := Option.some.inj h
      refine .take_facing (.past (.operand rfl) fun j hj => ?_)
      exact .bind_made namedKey_paired fun found => hmember false found hj
    next h =>
      obtain rfl := Option.some.inj h
      refine .take_facing (.past (.operand rfl) fun j hj => ?_)
      refine .takeSymbol_bind (.operand rfl) ?_ fun _ i hi => ?_
      · exact .bind_made namedKey_paired fun found => hmember true found hj
      · refine .bind_made (bracketKey_paired hnested (by omega)) fun found => ?_
        exact hmember true found (by omega)
    next h =>
      obtain rfl := Option.some.inj h
      refine .take_facing (.past (.operand rfl) fun j hj => ?_)
      refine .bind_made (bracketKey_paired hnested (by omega)) fun found => ?_
      exact hmember false found hj
    next h =>
      obtain rfl := Option.some.inj h
      refine .take_facing (.past (.operand rfl) fun j hj => ?_)
      refine .bind_made (elements_paired hnested rfl (by omega) (by omega) (by omega))
        fun found => ?_
      dsimp only [Prod.map]
      rw [span_mapSpans, ← T.join]
      exact (ih (by omega) (by omega) (by omega)
        (.call (base.span.join found.2) base found.1)).grow (by omega)
    next => exact .facing (.made rfl (Nat.le_refl k))

theorem updated_paired (hb : n < b) (hb' : n < b') :
    Paired T (T.At (.expression depth :: outer) n) (updated nested b) (updated nested' b')
      (T.Made (Expr.mapSpans T.span) (.expression depth :: outer) n) := by
  rw [updated, updated]
  refine .bind_made (primary_paired hnested (by omega) (by omega)) fun base => ?_
  refine .bind_made (links_paired hnested (Nat.le_refl n) hb hb' base) fun target => ?_
  refine .peekKind_bind (.made rfl (Nat.le_refl n)) rfl fun token => ?_
  dsimp only [Option.bind_some]
  cases hop : UpdateOp.ofToken? token.kind with
  | none => exact .facing (.made rfl (Nat.le_refl n))
  | some op =>
    refine .takeRequired_facing (.past (.operand (isOperand_of_updateOp? hop)) fun j hj => ?_)
    refine .made ?_ (Nat.le_of_lt hj)
    simp only [Expr.mapSpans, span_mapSpans, T.join, Token.span_mapSpan]

theorem prefixed_paired (hk : k ≤ n) (hb : k < b) (hb' : k < b') :
    Paired T (T.At (.expression depth :: outer) k) (prefixed nested b) (prefixed nested' b')
      (T.Made (Expr.mapSpans T.span) (.expression depth :: outer) k) := by
  induction b generalizing k b' with
  | zero => contradiction
  | succ b ih =>
    obtain _ | b' := b'
    · contradiction
    rw [prefixed, prefixed]
    simp only [discard_bind]
    refine .peek_bind (.atEnd (.failAtEnd (by decide))) (fun p place more stop hclosing _ => ?_)
      fun token => ?_
    · exact .error (T.closed _ hclosing _ _)
    obtain ⟨kind, place⟩ := token
    dsimp only [Token.mapSpan]
    split
    next op hop =>
      refine .take_facing (.past (.operand (isOperand_of_unaryOp? hop)) fun j hj => ?_)
      refine .bind_made (ih (by omega) (by omega) (by omega)) fun operand => .made ?_ (by omega)
      simp only [Expr.mapSpans, span_mapSpans, T.join]
    next op _ hop =>
      refine .take_facing (.past (.operand (isOperand_of_updateOp? hop)) fun j hj => ?_)
      refine .bind_made (ih (by omega) (by omega) (by omega)) fun target => .made ?_ (by omega)
      simp only [Expr.mapSpans, span_mapSpans, T.join]
    next => exact .facing (updated_paired (fun j hj => hnested j (by omega)) hb hb')

/-- Powers, which group to the right. -/
theorem powers_paired (hk : k ≤ n) (hb : k < b) (hb' : k < b') :
    Paired T (T.At (.expression depth :: outer) k) (powers nested b) (powers nested' b')
      (T.Made (Expr.mapSpans T.span) (.expression depth :: outer) k) := by
  induction b generalizing k b' with
  | zero => contradiction
  | succ b ih =>
    obtain _ | b' := b'
    · contradiction
    rw [powers, powers]
    refine .bind_made (prefixed_paired hnested hk hb hb') fun base => ?_
    refine .takeSymbol_bind (.operand rfl) (.made rfl (Nat.le_refl k)) fun _ j hj => ?_
    refine .bind_made (ih (by omega) (by omega) (by omega)) fun exponent => .made ?_ (by omega)
    simp only [Expr.mapSpans, span_mapSpans, T.join]

omit hnested in
theorem operations_paired {operand operand' : Parser Expr}
    (hoperand : ∀ j ≤ n, Paired T (T.At (.expression depth :: outer) j) operand operand'
      (T.Made (Expr.mapSpans T.span) (.expression depth :: outer) j))
    (level : Nat) (hk : k ≤ n) (hb : k < b) (hb' : k < b') (left : Expr) :
    Paired T (T.At (.expression depth :: outer) k) (operations operand level b left)
      (operations operand' level b' (left.mapSpans T.span))
      (T.Made (Expr.mapSpans T.span) (.expression depth :: outer) k) := by
  induction b generalizing k b' left with
  | zero => contradiction
  | succ b ih =>
    obtain _ | b' := b'
    · contradiction
    rw [operations, operations]
    simp only [discard_bind, peekOperator, bind_assoc, pure_bind]
    refine .peekKind_bind (.made rfl (Nat.le_refl k)) rfl fun token => ?_
    dsimp only [Option.bind_some]
    cases hop : (BinaryOp.ofToken? token.kind).filter (·.level = level) with
    | none => exact .facing (.made rfl (Nat.le_refl k))
    | some op =>
      have hkind := isOperand_of_binaryOp? (Option.eq_some_of_filter_eq_some hop)
      refine .take_facing (.past (.operand hkind) fun j hj => ?_)
      refine .bind_made (hoperand j (by omega)) fun right => ?_
      have hbinary := ih (k := j) (by omega) (by omega) (show j < b' by omega)
        (.binary (left.span.join right.span) op left right)
      simp only [Expr.mapSpans, T.join] at hbinary
      simpa only [span_mapSpans] using hbinary.grow (Nat.le_of_lt hj)

theorem binaries_paired (hk : k ≤ n) (hb : k < b) (hb' : k < b') :
    Paired T (T.At (.expression depth :: outer) k) (binaries nested b) (binaries nested' b')
      (T.Made (Expr.mapSpans T.span) (.expression depth :: outer) k) := by
  have hlevels (levels : List Nat) {j : Nat} (hj : j ≤ k) :
      Paired T (T.At (.expression depth :: outer) j)
        (levels.foldr (leftGrouped b) (powers nested b))
        (levels.foldr (leftGrouped b') (powers nested' b'))
        (T.Made (Expr.mapSpans T.span) (.expression depth :: outer) j) := by
    induction levels generalizing j with
    | nil => exact powers_paired hnested (by omega) (by omega) (by omega)
    | cons level levels ih =>
      exact .bind_made (ih hj) fun left =>
        operations_paired (fun i => ih (j := i)) level hj (by omega) (by omega) left
  exact hlevels _ (Nat.le_refl k)

theorem conditionals_paired (hb : n < b) (hb' : n < b') :
    Paired T (T.At (.expression depth :: outer) n) (conditionals nested b)
      (conditionals nested' b')
      (T.Made (Expr.mapSpans T.span) (.expression depth :: outer) n) := by
  rw [conditionals, conditionals]
  simp only [discard_bind]
  refine .bind_made (binaries_paired hnested (Nat.le_refl n) hb hb') fun test => ?_
  refine .takeSymbol_bind (.operand rfl) (.made rfl (Nat.le_refl n)) fun _ j hj => ?_
  refine .bind_made (hnested j hj _ _) fun consequent => ?_
  refine .expectSymbol_bind (.operand rfl) fun _ i hi => ?_
  refine .bind_made (hnested i (by omega) _ _) fun alternate => .made ?_ (by omega)
  simp only [Expr.mapSpans, span_mapSpans, T.join]

end

theorem assignments_paired (hb : n < b) (hb' : n < b') :
    Paired T (T.At (.expression depth :: outer) n) (assignments b) (assignments b')
      (T.Made (Expr.mapSpans T.span) (.expression depth :: outer) n) := by
  induction b generalizing n b' depth outer with
  | zero => contradiction
  | succ b ih =>
    obtain _ | b' := b'
    · contradiction
    have hnested : Nested T n (assignments b) (assignments b') := fun j hj depth outer =>
      ih (by omega) (by omega)
    rw [assignments, assignments]
    simp only [discard_bind]
    refine .bind_made (conditionals_paired hnested hb hb') fun target => ?_
    refine .peekKind_bind (.made rfl (Nat.le_refl n)) rfl fun token => ?_
    dsimp only [Option.bind_some]
    cases hop : AssignOp.ofToken? token.kind with
    | none => exact .facing (.made rfl (Nat.le_refl n))
    | some op =>
      refine .take_facing (.past (.operand (isOperand_of_assignOp? hop)) fun j hj => ?_)
      refine .bind_made (hnested j hj _ _) fun value => .made ?_ (by omega)
      simp only [Expr.mapSpans, span_mapSpans, T.join]

theorem parser_paired :
    Paired T (T.At (.expression depth :: outer) n) Expr.parser Expr.parser
      (T.Made (Expr.mapSpans T.span) (.expression depth :: outer) n) :=
  .budget_bind fun _ _ _ _ => assignments_paired

end PromptTemplate.Expr
