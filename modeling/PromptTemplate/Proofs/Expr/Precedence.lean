import PromptTemplate.Proofs.Expr.Operators
import PromptTemplate.Proofs.Expr.Whole
import PromptTemplate.Proofs.Expr.Written

/-!
# Precedence

Operands with binary operators between them, in whatever order, are read as
the one tree in which the operators are grouped by their levels
(`parseExpression_operands`).
-/

namespace PromptTemplate

open Lexer (Lexes Closed)

-- ---------------------------------------------------------------------------
-- Operands
-- ---------------------------------------------------------------------------

/-- An operand as it is written, and its value up to places. -/
inductive IsOperand : List Char → Expr → Prop
  | word {name} (h : IsWord name) (hname : name ∉ ["typeof", "in", "instanceof"]) :
    IsOperand name.toList (Expr.ofWord .nowhere name)
  | number {cs x} (h : Denotes cs x) : IsOperand cs (.literal .nowhere (.number x))
  | string {quote cs body} (hquote : quote = '"' ∨ quote = '\'')
    (h : Lexer.stringBody? quote cs = some (body, [])) :
    IsOperand (quote :: cs) (.literal .nowhere (.string (String.ofList body)))
  | parens {inner e} (h : Expr.ReadsAs inner e) :
    IsOperand ('(' :: inner.toList ++ [')']) e.erase

structure Operand where
  text : List Char
  value : Expr
  isOperand : IsOperand text value

/-- Blanks between two words, at least one. -/
structure Blanks where
  text : List Char
  some : text ≠ []
  blank : ∀ c ∈ text, Text.isBlank c

/-- An operator and the operand to its right. -/
structure Operation where
  before : Blanks
  op : BinaryOp
  after : Blanks
  operand : Operand

def Operation.text (o : Operation) : List Char :=
  o.before.text ++ (o.op.text.toList ++ (o.after.text ++ o.operand.text))

/-- The sequence as it is written. -/
def operandsText (first : Operand) (rest : List Operation) : String :=
  String.ofList (first.text ++ rest.flatMap Operation.text)

-- ---------------------------------------------------------------------------
-- The words of a sequence
-- ---------------------------------------------------------------------------

/-- The text is read as these words, wherever it stands, and they are this operand. -/
structure IsOperand.Read (text : List Char) (value : Expr) (kinds : List TokenKind) : Prop where
  lexes : Lexes [.expression 0] text kinds [.expression 0] Closed
  phrase (ts : List Token) (h : ts.map Token.kind = kinds) : ∃ e, Phrase 17 ts e ∧ e.erase = value
  kinds : kinds ≠ []
  text : text ≠ []

theorem ofWord_erase (place : Span) (name : String) :
    (Expr.ofWord place name).erase = Expr.ofWord .nowhere name := by
  unfold Expr.ofWord
  (repeat' split) <;> rfl

theorem IsOperand.read {text : List Char} {value : Expr} (h : IsOperand text value) :
    ∃ kinds, IsOperand.Read text value kinds := by
  cases h with
  | @word name h hname =>
    refine ⟨[.identifier name], Lexer.identifier_lexes h, fun ts hts => ?_, by simp, ?_⟩
    · obtain ⟨⟨_, place⟩, rfl, rfl⟩ := List.map_eq_singleton_iff.1 hts
      refine ⟨_, .word ?_, ofWord_erase place name⟩
      rintro rfl
      exact hname (List.mem_cons_self ..)
    · obtain ⟨first, rest, hname, -⟩ := h
      simp [hname]
  | @number cs x h =>
    refine ⟨[.number x], Lexer.number_lexes h, fun ts hts => ?_, by simp, ?_⟩
    · obtain ⟨⟨_, place⟩, rfl, rfl⟩ := List.map_eq_singleton_iff.1 hts
      exact ⟨_, .number, rfl⟩
    · rintro rfl
      cases h.1
  | @string quote cs body hquote h =>
    refine ⟨[.string (String.ofList body)], (Lexer.quoted_lexes hquote h).mono fun _ _ => trivial,
      fun ts hts => ?_, by simp, by simp⟩
    obtain ⟨⟨_, place⟩, rfl, rfl⟩ := List.map_eq_singleton_iff.1 hts
    exact ⟨_, .string, rfl⟩
  | parens h =>
    refine ⟨_, (Lexer.parens_lexes h).mono fun _ _ => trivial, fun ts hts => ?_, by simp, by simp⟩
    obtain ⟨front, closed, rfl, hfront, hclosed⟩ := List.map_eq_append_iff.1 hts
    obtain ⟨⟨_, opened⟩, inner, rfl, rfl, hinner⟩ := List.map_eq_cons_iff.1 hfront
    obtain ⟨⟨_, closed⟩, rfl, rfl⟩ := List.map_eq_singleton_iff.1 hclosed
    obtain ⟨e', hphrase, herase⟩ := (Expr.readsAs_iff.1 h).1.of_kinds hinner
    exact ⟨e', .parens hphrase, herase⟩

/-- The tokens of a text that is read to its end. -/
theorem Lexer.Lexes.expression_stream {text : List Char} {kinds : List TokenKind}
    (h : Lexes [.expression 0] text kinds [.expression 0] Closed) : ∃ tokens p,
      (expression (String.ofList text)).stream = ⟨tokens, .ok p⟩ ∧ tokens.map Token.kind = kinds := by
  obtain ⟨tokens, htokens, hemits⟩ := h [] .start nofun
  rw [List.append_nil] at hemits
  refine ⟨tokens, Position.start.afterAll text, ?_, htokens⟩
  rw [expression, String.toList_ofList]
  exact hemits.stream (n := ⟨[], Position.start.afterAll text, [.expression 0], false⟩) rfl

namespace Operand

/-- The words of the operand. -/
def kinds (o : Operand) : List TokenKind :=
  (Lexer.expression (String.ofList o.text)).stream.tokens.map Token.kind

theorem read (o : Operand) : IsOperand.Read o.text o.value o.kinds := by
  obtain ⟨kinds, h⟩ := o.isOperand.read
  obtain ⟨tokens, p, hstream, htokens⟩ := h.lexes.expression_stream
  have hkinds : o.kinds = kinds := by rw [Operand.kinds, hstream, htokens]
  rwa [hkinds]

end Operand

theorem BinaryOp.lexes (op : BinaryOp) : Lexes [.expression 0] op.text.toList [op.word]
    [.expression 0] Closed := by
  have hword (name : String) (h : IsWord name) :
      Lexes [.expression 0] name.toList [.identifier name] [.expression 0] Closed :=
    Lexer.identifier_lexes h
  cases op with
  | isIn => exact hword "in" (isWord_of rfl (by decide))
  | instanceOf => exact hword "instanceof" (isWord_of rfl (by decide))
  | _ => exact Lexer.symbol_lexes (by decide) (by decide)

/-- Blanks in front of words are passed over. -/
theorem Blanks.lexes (gap : Blanks) {text : List Char} {kinds : List TokenKind} (htext : text ≠ [])
    (hkinds : kinds ≠ []) (h : Lexes [.expression 0] text kinds [.expression 0] Closed) :
    Lexes [.expression 0] (gap.text ++ text) kinds [.expression 0] Closed := by
  obtain ⟨kind, kinds, rfl⟩ := List.exists_cons_of_ne_nil hkinds
  exact h.blanks _ gap.blank htext

theorem Blanks.closed (gap : Blanks) (more : List Char) : Closed (gap.text ++ more) := by
  obtain ⟨c, rest, htext⟩ := List.exists_cons_of_ne_nil gap.some
  have hc := gap.blank c (by simp [htext])
  rw [htext, List.cons_append]
  exact Lexer.closed_cons (by simp [Lexer.endsWord, hc]) _

def Operation.kinds (o : Operation) : List TokenKind := o.op.word :: o.operand.kinds

theorem Operation.lexes (o : Operation) :
    Lexes [.expression 0] o.text o.kinds [.expression 0] Closed := by
  have hop : o.op.text.toList ≠ [] := by cases o.op <;> decide
  have hoperand := o.after.lexes o.operand.read.text o.operand.read.kinds o.operand.read.lexes
  refine o.before.lexes (by simp [hop]) (by simp [Operation.kinds]) ?_
  refine o.op.lexes.append hoperand fun more _ => ?_
  rw [List.append_assoc]
  exact o.after.closed _

theorem operations_closed (rest : List Operation) {more : List Char} (h : Closed more) :
    Closed (rest.flatMap Operation.text ++ more) := by
  cases rest with
  | nil => exact h
  | cons next rest =>
    rw [List.flatMap_cons, Operation.text, List.append_assoc, List.append_assoc]
    exact next.before.closed _

theorem operands_lexes (first : Operand) (rest : List Operation) : Lexes [.expression 0]
    (first.text ++ rest.flatMap Operation.text) (first.kinds ++ rest.flatMap Operation.kinds)
    [.expression 0] Closed := by
  have hrest : Lexes [.expression 0] (rest.flatMap Operation.text) (rest.flatMap Operation.kinds)
      [.expression 0] Closed := by
    induction rest with
    | nil => exact .nil
    | cons o rest ih => exact o.lexes.append ih fun _ => operations_closed rest
  exact first.read.lexes.append hrest fun _ => operations_closed rest

-- ---------------------------------------------------------------------------
-- Grouped trees are phrases
-- ---------------------------------------------------------------------------

namespace OpTree

/-- The expression that a tree of operands stands for. -/
def expr : OpTree Operand → Expr
  | operand o => o.value
  | node op left right => .binary .nowhere op left.expr right.expr

def wordsOf : Operand ⊕ BinaryOp → List TokenKind
  | .inl o => o.kinds
  | .inr op => [op.word]

/-- The level of the grammar that the tree is read on. -/
def grade : OpTree Operand → Nat
  | operand _ => 17
  | node op _ _ => op.level + 2

variable {t : OpTree Operand}

/-- The root is the operator that binds loosest. -/
theorem le_grade (bound : Nat) (hbound : bound ≤ 17) (h : ∀ op ∈ t.ops, bound ≤ op.level + 2) :
    bound ≤ t.grade := by
  cases t with
  | operand o => exact hbound
  | node op left right => exact h op (by simp [ops])

theorem Grouped.phrase (h : t.Grouped) : ∀ ts : List Token,
    ts.map Token.kind = t.read.flatMap wordsOf → ∃ e, Phrase t.grade ts e ∧ e.erase = t.expr := by
  induction t with
  | operand o =>
    intro ts hts
    exact o.read.phrase ts (by simpa [OpTree.read, wordsOf] using hts)
  | node op left right ihleft ihright =>
    obtain ⟨hleft, hright, hlevels⟩ := h
    intro ts hts
    rw [OpTree.read, List.flatMap_append, List.flatMap_cons] at hts
    obtain ⟨front, back, rfl, hfront, hback⟩ := List.map_eq_append_iff.1 hts
    obtain ⟨token, more, rfl, htoken, hmore⟩ := List.map_eq_cons_iff.1 hback
    obtain ⟨l, hl, hlerase⟩ := ihleft hleft front hfront
    obtain ⟨r, hr, hrerase⟩ := ihright hright more hmore
    have herase : (Expr.binary (l.span.join r.span) op l r).erase = (node op left right).expr := by
      rw [Expr.erase, expr, hlerase, hrerase]
    have hle := op.level_le
    split at hlevels
    · rename_i hop
      subst hop
      obtain ⟨_, place⟩ := token
      obtain rfl := htoken
      obtain ⟨hnone, hpower⟩ := hlevels
      have hl14 := hl.at_looser (le_grade 14 (by decide) (by simp [hnone]))
      have hr13 := hr.at_looser (le_grade 13 (by decide) fun o ho => by
        rw [hpower o ho]
        decide)
      exact ⟨_, .power hl14 hr13, herase⟩
    · rename_i hop
      obtain ⟨hloose, htight⟩ := hlevels
      have hne : op.level ≠ 11 := mt BinaryOp.level_eq_power.1 hop
      have hl' := hl.at_looser (le_grade (op.level + 2) (by omega) fun o ho => by
        have := hloose o ho
        omega)
      have hr' := hr.at_looser (le_grade (op.level + 3) (by omega) fun o ho => by
        have := htight o ho
        omega)
      exact ⟨_, .binary (by rw [htoken, BinaryOp.ofToken?_word]) hop hl' hr', herase⟩

end OpTree

/-- The operands and the operators between them, from left to right. -/
def operandsSequence (first : Operand) (rest : List Operation) : List (Operand ⊕ BinaryOp) :=
  OpTree.sequence first (rest.map fun o => (o.op, o.operand))

/-- There is one tree of the sequence in which the operators are grouped by their levels, and the
sequence is read as this tree, to its end. -/
theorem parseExpression_operands (first : Operand) (rest : List Operation) :
    ∃ t : OpTree Operand, (t.read = operandsSequence first rest ∧ t.Grouped) ∧
      (∀ t' : OpTree Operand, t'.read = operandsSequence first rest → t'.Grouped → t' = t) ∧
      ∃ e, parseExpression (operandsText first rest) = .ok e ∧
        Expr.ReadsAs (operandsText first rest) e ∧ e.erase = t.expr := by
  let t := OpTree.ofSequence first (rest.map fun o => (o.op, o.operand))
  have hread : t.read = operandsSequence first rest := OpTree.read_ofSequence ..
  have hgrouped : t.Grouped := OpTree.grouped_ofSequence ..
  refine ⟨t, ⟨hread, hgrouped⟩, fun t' hread' hgrouped' =>
    OpTree.grouped_unique hgrouped' hgrouped (hread'.trans hread.symm), ?_⟩
  obtain ⟨tokens, p, hstream, htokens⟩ := (operands_lexes first rest).expression_stream
  have hwords : tokens.map Token.kind = t.read.flatMap OpTree.wordsOf := by
    rw [htokens, hread, operandsSequence, OpTree.sequence]
    simp [List.flatMap_map, List.flatMap_assoc, OpTree.wordsOf]
    rfl
  obtain ⟨e, hphrase, herase⟩ := hgrouped.phrase tokens hwords
  have hwhole : Expr.ReadsAs (operandsText first rest) e := by
    rw [Expr.readsAs_iff, operandsText, hstream]
    exact ⟨hphrase.at_looser (Nat.zero_le _), p, rfl⟩
  exact ⟨e, hwhole.parse, hwhole, herase⟩

example : (parseExpression "a - b - c ** d ** (a - b)").toOption.map Expr.erase =
    let name (s : String) : Expr := .identifier .nowhere s
    let apply (op : BinaryOp) (left right : Expr) : Expr := .binary .nowhere op left right
    some (apply .subtract (apply .subtract (name "a") (name "b")) (apply .power (name "c")
      (apply .power (name "d") (apply .subtract (name "a") (name "b"))))) := by
  rfl

end PromptTemplate
