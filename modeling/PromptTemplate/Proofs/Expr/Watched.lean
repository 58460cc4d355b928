import PromptTemplate.Expr.Parser
import PromptTemplate.Proofs.Parser.Follows

/-!
# Expressions under watch

The levels of the grammar again, each with a mark where it starts and one at
each turn of its loop. Going down the levels takes no token, and each level is
of a lower rank than the one above; everything else that starts, or turns,
does so behind a token.
-/

namespace PromptTemplate

open Watch

namespace Watched

-- ---------------------------------------------------------------------------
-- The levels
-- ---------------------------------------------------------------------------

section
variable (nested : Watched Expr)

/-- An expression between brackets or parentheses. -/
def inner : Watched Expr := within (.start .expression) nested

def elementTurns (close : Symbol) : (budget : Nat) → Watched (List Element × Span)
  | 0 => exhausted
  | budget + 1 => within (.turn .elements) do
    match ← takeSymbol close with
    | some token => return ([], token.span)
    | none =>
      let spread := (← takeSymbol .ellipsis).isSome
      let value ← nested
      let element := if spread then Element.spread value else Element.single value
      match ← takeSymbol .comma with
      | some _ =>
        let (more, span) ← elementTurns close budget
        return (element :: more, span)
      | none => return ([element], (← expectSymbol close).span)

def elements (close : Symbol) (budget : Nat) : Watched (List Element × Span) :=
  within (.start .elements) (elementTurns nested close budget)

def entry : Watched Entry := do
  if (← takeSymbol .ellipsis).isSome then return .spread (← nested)
  let token ← takeRequired "\x7d"
  match token.kind with
  | .identifier name =>
    if (← peekKind) = some (.symbol .colon) then
      let _ ← expectSymbol .colon
      return .named name (← nested)
    else return .named name (.identifier token.span name)
  | .string name =>
    let _ ← expectSymbol .colon
    return .named name (← nested)
  | .symbol .bracketOpen =>
    let key ← inner nested
    let _ ← expectSymbol .bracketClose
    let _ ← expectSymbol .colon
    return .computed key (← nested)
  | _ => fail .invalidObjectKey token.span

def entryTurns : (budget : Nat) → Watched (List Entry × Span)
  | 0 => exhausted
  | budget + 1 => within (.turn .object) do
    match ← takeSymbol .braceClose with
    | some token => return ([], token.span)
    | none =>
      let first ← entry nested
      match ← takeSymbol .comma with
      | some _ =>
        let (more, span) ← entryTurns budget
        return (first :: more, span)
      | none => return ([first], (← expectSymbol .braceClose).span)

def entries (budget : Nat) : Watched (List Entry × Span) :=
  within (.start .object) (entryTurns nested budget)

def primary (budget : Nat) : Watched Expr := within (.start .primary) do
  let token ← takeRequired "expression"
  match token.kind with
  | .number value => return .literal token.span (.number value)
  | .string value => return .literal token.span (.string value)
  | .identifier word => return Expr.ofWord token.span word
  | .symbol .parenOpen =>
    let value ← inner nested
    let _ ← expectSymbol .parenClose
    return value
  | .symbol .bracketOpen =>
    let (elements, last) ← elements nested .bracketClose budget
    return .array (token.span.join last) elements
  | .symbol .braceOpen =>
    let (entries, last) ← entries nested budget
    return .object (token.span.join last) entries
  | _ => fail (.unexpected "expression") token.span

def bracketKey : Watched (Property × Span) := do
  let key ← inner nested
  return (.computed key, (← expectSymbol .bracketClose).span)

def namedKey : Watched (Property × Span) := do
  let (name, span) ← name
  return (.named name, span)

def linkTurns : (budget : Nat) → Expr → Watched Expr
  | 0, _ => exhausted
  | budget + 1, base => within (.turn .links) do
    match ← peekKind with
    | some (.symbol .dot) =>
      let _ ← take
      let (property, last) ← namedKey
      linkTurns budget (.member (base.span.join last) base property false)
    | some (.symbol .optionalDot) =>
      let _ ← take
      let (property, last) ←
        if (← takeSymbol .bracketOpen).isSome then bracketKey nested else namedKey
      linkTurns budget (.member (base.span.join last) base property true)
    | some (.symbol .bracketOpen) =>
      let _ ← take
      let (property, last) ← bracketKey nested
      linkTurns budget (.member (base.span.join last) base property false)
    | some (.symbol .parenOpen) =>
      let _ ← take
      let (arguments, last) ← elements nested .parenClose (budget + 1)
      linkTurns budget (.call (base.span.join last) base arguments)
    | _ => return base

def links (budget : Nat) : Watched Expr := within (.start .links) do
  linkTurns nested budget (← primary nested budget)

def updated (budget : Nat) : Watched Expr := within (.start .updated) do
  let target ← links nested budget
  match (← peekKind).bind UpdateOp.ofToken? with
  | some op =>
    let token ← takeRequired "expression"
    return .update (target.span.join token.span) op .after target
  | none => return target

def prefixed : (budget : Nat) → Watched Expr
  | 0 => exhausted
  | budget + 1 => within (.start .prefixed) do
    match ← peek with
    | none => failAtEnd (.unexpectedEnd "expression")
    | some token =>
      match Expr.unaryOp? token.kind, UpdateOp.ofToken? token.kind with
      | some op, _ =>
        let _ ← take
        let operand ← prefixed budget
        return .unary (token.span.join operand.span) op operand
      | none, some op =>
        let _ ← take
        let target ← prefixed budget
        return .update (token.span.join target.span) op .before target
      | none, none => updated nested (budget + 1)

def powers : (budget : Nat) → Watched Expr
  | 0 => exhausted
  | budget + 1 => within (.start .power) do
    let base ← prefixed nested (budget + 1)
    match ← takeSymbol .power with
    | none => return base
    | some _ =>
      let exponent ← powers budget
      return .binary (base.span.join exponent.span) .power base exponent

def peekOperator (level : Nat) : Watched (Option BinaryOp) :=
  return ((← peekKind).bind BinaryOp.ofToken?).filter (·.level = level)

def operationTurns (operand : Watched Expr) (level : Nat) : (budget : Nat) → Expr → Watched Expr
  | 0, _ => exhausted
  | budget + 1, left => within (.turn (.binary level)) do
    match ← peekOperator level with
    | none => return left
    | some op =>
      let _ ← take
      let right ← operand
      operationTurns operand level budget (.binary (left.span.join right.span) op left right)

def leftGrouped (budget : Nat) (level : Nat) (operand : Watched Expr) : Watched Expr :=
  within (.start (.binary level)) do
    operationTurns operand level budget (← operand)

def binaries (budget : Nat) : Watched Expr :=
  (List.range BinaryOp.power.level).foldr (leftGrouped budget) (powers nested budget)

def conditionals (budget : Nat) : Watched Expr := within (.start .conditional) do
  let test ← binaries nested budget
  match ← takeSymbol .question with
  | none => return test
  | some _ =>
    let consequent ← nested
    let _ ← expectSymbol .colon
    let alternate ← nested
    return .conditional (test.span.join alternate.span) test consequent alternate

end

def assignments : (budget : Nat) → Watched Expr
  | 0 => exhausted
  | budget + 1 => within (.start .assignment) do
    let nested := assignments budget
    let target ← conditionals nested (budget + 1)
    match (← peekKind).bind AssignOp.ofToken? with
    | none => return target
    | some op =>
      let _ ← take
      let value ← nested
      return .assignment (target.span.join value.span) op target value

def expression : Watched Expr := do inner (assignments (← budget))

-- ---------------------------------------------------------------------------
-- The levels follow
-- ---------------------------------------------------------------------------

section
variable {nested : Watched Expr} {nested' : Parser Expr} {n m budget : Nat}
  (hnested : Follows (Ready n (Mark.start .expression).rank) nested nested' true)
include hnested

theorem inner_follows {rank : Nat} (hm : m ≤ n) (hrank : (Mark.start .expression).rank < rank) :
    Follows (Ready m rank) (inner nested) nested' true :=
  .within hrank (hnested.mono hm (Nat.le_refl _))

theorem elementTurns_follows {close : Symbol} (hm : m ≤ n) (hbudget : m ≤ budget) :
    Follows (Ready m (Mark.start .elements).rank) (elementTurns nested close budget)
      (Expr.elements nested' close budget) true := by
  induction budget generalizing m with
  | zero => exact .exhausted hbudget
  | succ budget ih =>
    rw [elementTurns, Expr.elements]
    refine .within (by decide) (.takeSymbol_bind ?_ fun token => .pure _)
    refine .look .takeSymbol fun spread => .step (hnested.mono hm (by decide)) fun value => ?_
    refine .takeSymbol_bind (.step .expectSymbol fun last => .pure _) fun comma => ?_
    exact .step ((ih (by omega) (by omega)).mono (Nat.le_refl _) (by decide)) fun more => .pure _

theorem elements_follows {close : Symbol} (hm : m ≤ n) (hbudget : m ≤ budget) :
    Follows (Ready m Mark.ranks) (elements nested close budget)
      (Expr.elements nested' close budget) true :=
  .within (by decide) (elementTurns_follows hnested hm hbudget)

theorem entry_follows (hm : m ≤ n) :
    Follows (Ready m (Mark.turn .object).rank) (entry nested) (Expr.entry nested') true := by
  have hvalue {rank : Nat} {l : Nat} (hl : l ≤ m) (hrank : (Mark.start .assignment).rank < rank) :
      Follows (Ready l rank) nested nested' true :=
    hnested.mono (hl.trans hm) hrank
  rw [entry, Expr.entry]
  simp only [Parser.discard_bind]
  refine .look .takeSymbol fun spread => .ite (fun _ => ?_) fun _ => ?_
  · exact .step (hvalue (by omega) (by decide)) fun value => .pure _
  refine .step .takeRequired ?_
  rintro ⟨kind, span⟩
  cases kind with
  | identifier name =>
    refine .look .peekKind fun kind => .ite (fun _ => ?_) fun _ => .pure _
    exact .step .expectSymbol fun _ => .step (hvalue (by omega) (by decide)) fun value => .pure _
  | string name =>
    exact .step .expectSymbol fun _ => .step (hvalue (by omega) (by decide)) fun value => .pure _
  | symbol symbol =>
    cases symbol with
    | bracketOpen =>
      refine .step (inner_follows hnested (by omega) (by decide)) fun key => ?_
      refine .step .expectSymbol fun _ => .step .expectSymbol fun _ => ?_
      exact .step (hvalue (by omega) (by decide)) fun value => .pure _
    | _ => exact Fails.fail.follows
  | _ => exact Fails.fail.follows

theorem entryTurns_follows (hm : m ≤ n) (hbudget : m ≤ budget) :
    Follows (Ready m (Mark.start .object).rank) (entryTurns nested budget)
      (Expr.entries nested' budget) true := by
  induction budget generalizing m with
  | zero => exact .exhausted hbudget
  | succ budget ih =>
    rw [entryTurns, Expr.entries]
    refine .within (by decide) (.takeSymbol_bind ?_ fun token => .pure _)
    refine .step (entry_follows hnested hm) fun first => ?_
    refine .takeSymbol_bind (.step .expectSymbol fun last => .pure _) fun comma => ?_
    exact .step ((ih (by omega) (by omega)).mono (Nat.le_refl _) (by decide)) fun more => .pure _

theorem entries_follows (hm : m ≤ n) (hbudget : m ≤ budget) :
    Follows (Ready m Mark.ranks) (entries nested budget) (Expr.entries nested' budget) true :=
  .within (by decide) (entryTurns_follows hnested hm hbudget)

/-- The first token of an expression is taken here, so from now on one less may be left. -/
theorem primary_follows (hm : m ≤ n + 1) (hbudget : m ≤ budget) :
    Follows (Ready m (Mark.start .links).rank) (primary nested budget)
      (Expr.primary nested' budget) true := by
  rw [primary, Expr.primary]
  simp only [Parser.discard_bind]
  refine .within (by decide) (.step .takeRequired ?_)
  rintro ⟨kind, span⟩
  cases kind with
  | number value => exact .pure _
  | string value => exact .pure _
  | identifier word => exact .pure _
  | symbol symbol =>
    cases symbol with
    | parenOpen =>
      refine .step (inner_follows hnested (by omega) (by decide)) fun value => ?_
      exact .step .expectSymbol fun _ => .pure _
    | bracketOpen =>
      exact .step (elements_follows hnested (by omega) (by omega)) fun r => .pure _
    | braceOpen => exact .step (entries_follows hnested (by omega) (by omega)) fun r => .pure _
    | _ => exact Fails.fail.follows
  | _ => exact Fails.fail.follows

theorem bracketKey_follows (hm : m ≤ n) :
    Follows (Ready m Mark.ranks) (bracketKey nested) (Expr.bracketKey nested') true :=
  .step (inner_follows hnested hm (by decide)) fun key => .step .expectSymbol fun last => .pure _

omit hnested in
theorem namedKey_follows : Follows (Ready m Mark.ranks) namedKey Expr.namedKey true :=
  .step (.name (by decide)) fun r => .pure _

theorem linkTurns_follows (hm : m ≤ n) (hbudget : m ≤ budget) (base : Expr) :
    Follows (Ready m Mark.ranks) (linkTurns nested budget base)
      (Expr.links nested' budget base) false := by
  induction budget generalizing m base with
  | zero => exact .exhausted hbudget
  | succ budget ih =>
    rw [linkTurns, Expr.links]
    simp only [Parser.discard_bind]
    refine .within (by decide) (.peekKind_bind (.pure _) fun kind => ?_)
    cases kind with
    | symbol symbol =>
      cases symbol with
      | dot =>
        refine .take_facing fun _ => .step namedKey_follows fun r => ?_
        exact ih (by omega) (by omega) _
      | optionalDot =>
        refine .take_facing fun _ => .look .takeSymbol fun opening => ?_
        refine .ite (fun _ => ?_) fun _ => ?_
        · exact .step (bracketKey_follows hnested (by omega)) fun r => ih (by omega) (by omega) _
        · exact .step namedKey_follows fun r => ih (by omega) (by omega) _
      | bracketOpen =>
        refine .take_facing fun _ => .step (bracketKey_follows hnested (by omega)) fun r => ?_
        exact ih (by omega) (by omega) _
      | parenOpen =>
        refine .take_facing fun _ => ?_
        refine .step (elements_follows hnested (by omega) (by omega)) fun r => ?_
        exact ih (by omega) (by omega) _
      | _ => exact .pure _
    | _ => exact .pure _

theorem updated_follows (hm : m ≤ n + 1) (hbudget : m ≤ budget) :
    Follows (Ready m (Mark.start .prefixed).rank) (updated nested budget)
      (Expr.updated nested' budget) true := by
  have hlinks : Follows (Ready m (Mark.start .updated).rank) (links nested budget)
      (Expr.primary nested' budget >>= Expr.links nested' budget) true := by
    refine .within (by decide) (.step (primary_follows hnested hm hbudget) fun base => ?_)
    exact linkTurns_follows hnested (by omega) (by omega) base
  rw [updated, Expr.updated, ← bind_assoc]
  refine .within (by decide) (.step hlinks fun target => ?_)
  refine .look .peekKind fun kind => ?_
  cases kind.bind UpdateOp.ofToken? with
  | none => exact .pure _
  | some op => exact .step .takeRequired fun token => .pure _

theorem prefixed_follows (hm : m ≤ n + 1) (hbudget : m ≤ budget) :
    Follows (Ready m (Mark.start .power).rank) (prefixed nested budget)
      (Expr.prefixed nested' budget) true := by
  induction budget generalizing m with
  | zero => exact .exhausted hbudget
  | succ budget ih =>
    have hoperand : Follows (Ready (m - 1) Mark.ranks) (prefixed nested budget)
        (Expr.prefixed nested' budget) true :=
      (ih (by omega) (by omega)).mono (Nat.le_refl _) (by decide)
    rw [prefixed, Expr.prefixed]
    simp only [Parser.discard_bind]
    refine .within (by decide) (.peek_bind Fails.failAtEnd.follows fun token => ?_)
    dsimp only
    cases hunary : Expr.unaryOp? token.kind with
    | some op => exact .take_facing fun _ => .step hoperand fun operand => .pure _
    | none =>
      cases hupdate : UpdateOp.ofToken? token.kind with
      | some op => exact .take_facing fun _ => .step hoperand fun target => .pure _
      | none => exact (updated_follows hnested hm hbudget).before fun _ => Facing.toReady

theorem powers_follows {rank : Nat} (hm : m ≤ n + 1) (hbudget : m ≤ budget)
    (hrank : (Mark.start .power).rank < rank) :
    Follows (Ready m rank) (powers nested budget) (Expr.powers nested' budget) true := by
  induction budget generalizing m rank with
  | zero => exact .exhausted hbudget
  | succ budget ih =>
    rw [powers, Expr.powers]
    refine .within hrank (.step (prefixed_follows hnested hm hbudget) fun base => ?_)
    refine .takeSymbol_bind (.pure _) fun _ => ?_
    exact .step (ih (by omega) (by omega) (by decide)) fun exponent => .pure _

omit hnested in
theorem operationTurns_follows {operand : Watched Expr} {operand' : Parser Expr} {rank : Nat}
    (hoperand : Follows (Ready n rank) operand operand' true) (hrank : rank ≤ Mark.ranks)
    (level : Nat) (hm : m ≤ n) (hbudget : m ≤ budget) (left : Expr) :
    Follows (Ready m Mark.ranks) (operationTurns operand level budget left)
      (Expr.operations operand' level budget left) false := by
  induction budget generalizing m left with
  | zero => exact .exhausted hbudget
  | succ budget ih =>
    rw [operationTurns, Expr.operations, peekOperator, Expr.peekOperator]
    simp only [Parser.discard_bind, bind_assoc, pure_bind]
    refine .within (Mark.rank_lt_ranks _) (.peekKind_bind (.pure _) fun kind => ?_)
    cases ((some kind).bind BinaryOp.ofToken?).filter (·.level = level) with
    | none => exact .pure _
    | some op =>
      refine .take_facing fun _ => .step (hoperand.mono (by omega) hrank) fun right => ?_
      exact ih (by omega) (by omega) _

/-- Levels that bind tighter and tighter are of lower and lower rank. -/
theorem grouped_follows (hm : m ≤ n + 1) (hbudget : m ≤ budget) {levels : List Nat} {rank : Nat}
    (hlevels : levels.Pairwise (· < ·)) (hpower : (Mark.start .power).rank < rank)
    (hranks : ∀ level ∈ levels, level < BinaryOp.power.level ∧
      (Mark.start (.binary level)).rank < rank) :
    Follows (Ready m rank) (levels.foldr (leftGrouped budget) (powers nested budget))
      (levels.foldr (Expr.leftGrouped budget) (Expr.powers nested' budget)) true := by
  induction levels generalizing rank with
  | nil => exact powers_follows hnested hm hbudget hpower
  | cons level levels ih =>
    obtain ⟨hfirst, hlevels⟩ := List.pairwise_cons.mp hlevels
    obtain ⟨⟨hlevel, hrank⟩, hranks⟩ := List.forall_mem_cons.mp hranks
    have htighter : ∀ l ∈ levels, l < BinaryOp.power.level ∧
        (Mark.start (.binary l)).rank < (Mark.start (.binary level)).rank := by
      intro l hl
      have hbelow := hfirst l hl
      have habove := (hranks l hl).1
      refine ⟨habove, ?_⟩
      simp only [Mark.rank]
      omega
    have hoperand := ih hlevels (by simp only [Mark.rank]; omega) htighter
    refine .within hrank (.step hoperand fun left => ?_)
    exact operationTurns_follows hoperand (Mark.rank_lt_ranks _).le level (by omega) (by omega) left

theorem binaries_follows (hm : m ≤ n + 1) (hbudget : m ≤ budget) :
    Follows (Ready m (Mark.start .conditional).rank) (binaries nested budget)
      (Expr.binaries nested' budget) true := by
  refine grouped_follows hnested hm hbudget List.pairwise_lt_range (by decide) ?_
  refine fun level hlevel => ⟨List.mem_range.mp hlevel, ?_⟩
  simp only [Mark.rank, BinaryOp.level]
  omega

theorem conditionals_follows (hm : m ≤ n + 1) (hbudget : m ≤ budget) :
    Follows (Ready m (Mark.start .assignment).rank) (conditionals nested budget)
      (Expr.conditionals nested' budget) true := by
  have hvalue {l : Nat} (hl : l ≤ n) : Follows (Ready l Mark.ranks) nested nested' true :=
    hnested.mono hl (by decide)
  rw [conditionals, Expr.conditionals]
  simp only [Parser.discard_bind]
  refine .within (by decide) (.step (binaries_follows hnested hm hbudget) fun test => ?_)
  refine .takeSymbol_bind (.pure _) fun _ => .step (hvalue (by omega)) fun consequent => ?_
  refine .step .expectSymbol fun _ => .step (hvalue (by omega)) fun alternate => .pure _

end

theorem assignments_follows (budget : Nat) :
    Follows (Ready budget (Mark.start .expression).rank) (assignments budget)
      (Expr.assignments budget) true := by
  induction budget with
  | zero => exact .exhausted (Nat.le_refl _)
  | succ budget ih =>
    rw [assignments, Expr.assignments]
    simp only [Parser.discard_bind]
    refine .within (by decide) ?_
    refine .step (conditionals_follows ih (Nat.le_refl _) (Nat.le_refl _)) fun target => ?_
    refine .peekKind_bind (.pure _) fun kind => ?_
    cases hop : (some kind).bind AssignOp.ofToken? with
    | none => exact .pure _
    | some op =>
      exact .take_facing fun _ => .step (ih.mono (by omega) (by decide)) fun value => .pure _

/-- An expression takes a token at least. -/
theorem expression_follows {n rank : Nat} (hrank : (Mark.start .expression).rank < rank) :
    Follows (Ready n rank) expression Expr.parser true :=
  .budget_bind fun budget => inner_follows (assignments_follows budget) (Nat.le_refl _) hrank

end Watched

end PromptTemplate
