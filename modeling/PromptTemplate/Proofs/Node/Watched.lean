import PromptTemplate.Node.Parser
import PromptTemplate.Proofs.Expr.Watched

/-!
# Documents under watch

The readers of patterns, attributes and nodes again, with their marks. What a
routine starts inside itself starts behind a token, and so does every turn but
the first. Only a list of nodes may end without a token; what reads it takes the
one behind it. So no watch ever stops a parser (`parse_advances`).
-/

namespace PromptTemplate

open Watch

namespace Watched

-- ---------------------------------------------------------------------------
-- Patterns
-- ---------------------------------------------------------------------------

section
variable (nested : Watched Pattern)

def patternEntries : (budget : Nat) → Watched (List (Ident × Pattern))
  | 0 => exhausted
  | budget + 1 => within (.turn .pattern) do
    if (← takeSymbol .braceClose).isSome then return []
    let (name, span) ← name
    let key : Ident := ⟨name, span⟩
    let binding ←
      if (← takeSymbol .colon).isSome then nested else pure (Pattern.ident key)
    if (← takeSymbol .comma).isSome then
      return (key, binding) :: (← patternEntries budget)
    let _ ← expectSymbol .braceClose
    return [(key, binding)]

def patternItems : (budget : Nat) → Watched (List Pattern)
  | 0 => exhausted
  | budget + 1 => within (.turn .pattern) do
    if (← takeSymbol .bracketClose).isSome then return []
    let first ← nested
    if (← takeSymbol .comma).isSome then
      return first :: (← patternItems budget)
    let _ ← expectSymbol .bracketClose
    return [first]

end

def patterns : (budget : Nat) → Watched Pattern
  | 0 => exhausted
  | budget + 1 => within (.start .pattern) do
    let token ← takeRequired "\x7d"
    match token.kind with
    | .identifier name => return .ident ⟨name, token.span⟩
    | .symbol .braceOpen => return .object (← patternEntries (patterns budget) (budget + 1))
    | .symbol .bracketOpen => return .array (← patternItems (patterns budget) (budget + 1))
    | _ => fail .expectedPattern token.span

def pattern : Watched Pattern := do patterns (← budget)

section
variable {nested : Watched Pattern} {nested' : Parser Pattern} {n m budget : Nat}
  (hnested : Follows (Ready n (Mark.turn .pattern).rank) nested nested' true)
include hnested

theorem patternEntries_follows (hm : m ≤ n) (hbudget : m ≤ budget) :
    Follows (Ready m Mark.ranks) (patternEntries nested budget)
      (Pattern.entries nested' budget) true := by
  induction budget generalizing m with
  | zero => exact .exhausted hbudget
  | succ budget ih =>
    rw [patternEntries, Pattern.entries]
    simp only [Parser.discard_bind]
    refine .within (by decide) (.takeSymbol_bind ?_ fun token => .pure _)
    refine .step (.name (by decide)) fun key => .look .takeSymbol fun colon => ?_
    refine .ite (fun _ => .step (hnested.mono (by omega) (by decide)) ?_) fun _ =>
      .look (.pure _) ?_
    all_goals
      intro binding
      refine .look .takeSymbol fun comma => .ite (fun _ => ?_) fun _ => ?_
      · exact .step (ih (by omega) (by omega)) fun more => .pure _
      · exact .step .expectSymbol fun _ => .pure _

theorem patternItems_follows (hm : m ≤ n) (hbudget : m ≤ budget) :
    Follows (Ready m Mark.ranks) (patternItems nested budget)
      (Pattern.items nested' budget) true := by
  induction budget generalizing m with
  | zero => exact .exhausted hbudget
  | succ budget ih =>
    rw [patternItems, Pattern.items]
    simp only [Parser.discard_bind]
    refine .within (by decide) (.takeSymbol_bind ?_ fun token => .pure _)
    refine .step (hnested.mono hm (Nat.le_refl _)) fun first => ?_
    refine .look .takeSymbol fun comma => .ite (fun _ => ?_) fun _ => ?_
    · exact .step (ih (by omega) (by omega)) fun more => .pure _
    · exact .step .expectSymbol fun _ => .pure _

end

theorem patterns_follows (budget : Nat) :
    Follows (Ready budget (Mark.turn .pattern).rank) (patterns budget)
      (Pattern.patterns budget) true := by
  induction budget with
  | zero => exact .exhausted (Nat.le_refl _)
  | succ budget ih =>
    rw [patterns, Pattern.patterns]
    refine .within (by decide) (.step .takeRequired ?_)
    rintro ⟨kind, span⟩
    cases kind with
    | identifier name => exact .pure _
    | symbol symbol =>
      cases symbol with
      | braceOpen =>
        exact .step (patternEntries_follows ih (by omega) (by omega)) fun entries => .pure _
      | bracketOpen =>
        exact .step (patternItems_follows ih (by omega) (by omega)) fun items => .pure _
      | _ => exact Fails.fail.follows
    | _ => exact Fails.fail.follows

theorem pattern_follows {n : Nat} : Follows (Ready n Mark.ranks) pattern Pattern.parser true :=
  .budget_bind fun budget => (patterns_follows budget).mono (Nat.le_refl _) (by decide)

-- ---------------------------------------------------------------------------
-- Attributes
-- ---------------------------------------------------------------------------

def attributeValue : Watched AttributeValue := within (.start .attributeValue) do
  if (← takeSymbol .assign).isNone then return .flag
  match ← take with
  | none => failAtEnd .missingAttributeValue
  | some token =>
    match token.kind with
    | .attributeValue text => return .literal text
    | .mustacheOpen =>
      let value ← expression
      let _ ← expectClose
      return .expression value
    | .blockOpen block => fail (.misplacedBlock "used as an attribute value" block) token.span
    | _ => fail .missingAttributeValue token.span

def attributeTurns : (budget : Nat) → (earlier : List Attribute) →
    Watched (List Attribute × Attribute.Closing)
  | 0, _ => exhausted
  | budget + 1, earlier => within (.turn .tag) do
    let token ← takeRequired ">"
    match token.kind with
    | .attributeName name =>
      if (Attribute.find? earlier name).isSome then fail .duplicateAttribute token.span
      else
        let value ← attributeValue
        attributeTurns budget (earlier ++ [⟨name, token.span, value⟩])
    | .tagEnd => return (earlier, ⟨false, token.span⟩)
    | .tagSelfClose => return (earlier, ⟨true, token.span⟩)
    | .blockOpen block =>
      fail (.misplacedBlock "placed inside a tag's attribute list" block) token.span
    | _ => fail (.unexpected ">") token.span

/-- This loop takes no token. A tag has at most one attribute that it looks at. -/
def checkLiteral (attributes : List Attribute) : (names : List String) → Watched Unit
  | [] => return
  | name :: names => within (.turn .tag) do
    match Attribute.find? attributes name with
    | some ⟨_, span, .expression _⟩ => fail (.attributeNotLiteral name) span
    | _ => checkLiteral attributes names

theorem attributeValue_follows {n : Nat} :
    Follows (Ready n Mark.ranks) attributeValue Attribute.valueParser false := by
  rw [attributeValue, Attribute.valueParser]
  simp only [Parser.discard_bind]
  refine .within (by decide) (.look .takeSymbol fun sign => .ite (fun _ => .pure _) fun _ => ?_)
  refine .take_bind Fails.failAtEnd.follows ?_
  rintro ⟨kind, span⟩
  cases kind with
  | attributeValue text => exact .pure _
  | mustacheOpen =>
    exact .step (expression_follows (by decide)) fun value => .step .expectClose fun _ => .pure _
  | _ => exact Fails.fail.follows

theorem attributeTurns_follows {m budget : Nat} (hbudget : m ≤ budget) (earlier : List Attribute) :
    Follows (Ready m (Mark.start .tag).rank) (attributeTurns budget earlier)
      (Attribute.list budget earlier) true := by
  induction budget generalizing m earlier with
  | zero => exact .exhausted hbudget
  | succ budget ih =>
    rw [attributeTurns, Attribute.list]
    refine .within (by decide) (.step .takeRequired ?_)
    rintro ⟨kind, span⟩
    cases kind with
    | attributeName name =>
      refine .ite (fun _ => Fails.fail.follows) fun _ => ?_
      refine .look attributeValue_follows fun value => ?_
      exact ((ih (by omega) _).mono (Nat.le_refl _) (by decide)).weaken
    | tagEnd => exact .pure _
    | tagSelfClose => exact .pure _
    | _ => exact Fails.fail.follows

theorem checkLiteral_follows {n : Nat} (attributes : List Attribute) {names : List String}
    (hnames : names.length ≤ 1) : Follows (Ready n Mark.ranks) (checkLiteral attributes names)
      (Attribute.checkLiteral attributes names) false := by
  match names, hnames with
  | [], _ => exact .pure _
  | [name], _ =>
    rw [checkLiteral, Attribute.checkLiteral]
    refine .within (by decide) ?_
    cases Attribute.find? attributes name with
    | none => exact .pure _
    | some found =>
      obtain ⟨_, span, value⟩ := found
      cases value with
      | expression value => exact Fails.fail.follows
      | _ => exact .pure _

theorem length_literalAttributes (kind : TagKind) : kind.literalAttributes.length ≤ 1 := by
  rcases kind with _ | (_ | _) | _ | _ <;> exact Nat.le_of_ble_eq_true rfl

-- ---------------------------------------------------------------------------
-- Nodes
-- ---------------------------------------------------------------------------

def checkBranch (enclosing : List Construct) (span : Span) : Watched Unit := do
  let first := (← peekAt 1).map Token.kind
  let second := (← peekAt 2).map Token.kind
  if first = some (.identifier "elseif") then fail .elseifSpelling span
  else if first = some (.identifier "else") then
    let placed :=
      if second = some (.identifier "if") then Construct.placeElseIf enclosing
      else Construct.placeElse enclosing
    match placed with
    | .ok () => return
    | .error cause => fail cause span
  else fail (.unexpected "else") span

section
variable (nested : List Construct → Watched (List Node)) (enclosing : List Construct)

def alternateTurns : (budget : Nat) → (hasElse : Bool) → Watched (List Alternate × Span)
  | 0, _ => exhausted
  | budget + 1, hasElse => within (.turn .ifBlock) do
    let token ← takeRequired "\x7b/if\x7d"
    if token.kind = .blockBranch then
      let _ ← take
      if ← takeWord "if" then
        let condition ← expression
        let _ ← expectClose
        let body ← nested (.ifBlock hasElse :: enclosing)
        let (more, last) ← alternateTurns budget hasElse
        return (.elseIf condition body :: more, last)
      else
        let _ ← expectClose
        let body ← nested (.ifBlock true :: enclosing)
        let (more, last) ← alternateTurns budget true
        return (.otherwise body :: more, last)
    else return ([], ← expectClose)

def ifBlock (budget : Nat) (start : Span) : Watched Node := within (.start .ifBlock) do
  let condition ← expression
  let _ ← expectClose
  let consequent ← nested (.ifBlock false :: enclosing)
  let (alternates, last) ← alternateTurns nested enclosing budget false
  return .ifBlock (start.join last) condition consequent alternates

def fallbackTurns :
    (budget : Nat) → (earlier : Option (List Node)) → Watched (Option (List Node) × Span)
  | 0, _ => exhausted
  | budget + 1, earlier => within (.turn .eachBlock) do
    let token ← takeRequired "\x7b/each\x7d"
    if token.kind = .blockBranch then
      let _ ← take
      let _ ← expectClose
      let body ← nested (.eachBlock true :: enclosing)
      fallbackTurns budget (some body)
    else return (earlier, ← expectClose)

def eachBlock (budget : Nat) (start : Span) : Watched Node := within (.start .eachBlock) do
  let iterable ← expression
  if !(← takeWord "as") then failExpecting "as"
  let item ← pattern
  let index ←
    if (← takeSymbol .comma).isSome then
      let (name, span) ← name
      pure (some (Ident.mk name span))
    else pure none
  let _ ← expectClose
  let body ← nested (.eachBlock false :: enclosing)
  let (fallback, last) ← fallbackTurns nested enclosing budget none
  return .eachBlock (start.join last) iterable item index body fallback

def tag (budget : Nat) (start : Span) (name : String) : Watched Node := within (.start .tag) do
  let kind := TagKind.ofName name
  let (attributes, closing) ← attributeTurns budget []
  checkLiteral attributes kind.literalAttributes
  if closing.selfClosing then return .tag ⟨start.join closing.span, kind, name, attributes⟩ []
  else
    let children ← nested (.tag name :: enclosing)
    let token ← takeRequired (Construct.tag name).closer
    return .tag ⟨start.join token.span, kind, name, attributes⟩ children

end

def nodeTurns : (budget : Nat) → (enclosing : List Construct) → Watched (List Node)
  | 0, _ => exhausted
  | budget + 1, enclosing => within (.turn .nodes) do
    let nested inner := within (.start .nodes) (nodeTurns budget inner)
    match ← peek with
    | none =>
      match enclosing with
      | [] => return []
      | inner :: _ => failAtEnd (.unexpectedEnd inner.closer)
    | some token =>
      match token.kind with
      | .text value =>
        let _ ← take
        return .text token.span value :: (← nodeTurns budget enclosing)
      | .mustacheOpen =>
        let _ ← take
        let value ← expression
        let last ← expectClose
        return .mustache (token.span.join last) value :: (← nodeTurns budget enclosing)
      | .blockOpen name =>
        let _ ← take
        let node ←
          if name = "if" then ifBlock nested enclosing (budget + 1) token.span
          else if name = "each" then eachBlock nested enclosing (budget + 1) token.span
          else fail .expectedBlockType token.span
        return node :: (← nodeTurns budget enclosing)
      | .blockBranch =>
        checkBranch enclosing token.span
        return []
      | .blockClose name =>
        if (enclosing.head?.any (·.closedByBlock name)) then return []
        else fail .unexpectedBlockClose token.span
      | .tagOpen name =>
        let _ ← take
        let node ← tag nested enclosing (budget + 1) token.span name
        return node :: (← nodeTurns budget enclosing)
      | .tagClose name =>
        if enclosing.head? = some (.tag name) then return []
        else fail (.unexpectedTagClose name) token.span
      | _ => fail (.unexpected "text") token.span

def nodes (budget : Nat) (enclosing : List Construct) : Watched (List Node) :=
  within (.start .nodes) (nodeTurns budget enclosing)

/-- The section at the front, with the reason of `Config.refusal` where its body is refused. -/
def config : Watched (List Node) := do
  match ← peek with
  | some ⟨.config body, span⟩ =>
    let _ ← take
    match Config.entries? body with
    | some entries => return [.config span entries]
    | none => fail Config.refusal span
  | _ => return []

def document : Watched Document := within (.start .document) do
  let opening ← config
  let nodes ← nodes (← budget) []
  return ⟨opening ++ nodes⟩

-- ---------------------------------------------------------------------------
-- The nodes follow
-- ---------------------------------------------------------------------------

theorem checkBranch_follows {n rank : Nat} (enclosing : List Construct) (span : Span) :
    Follows (Ready n rank) (checkBranch enclosing span) (Node.checkBranch enclosing span)
      false := by
  refine .look .peekAt fun first => .look .peekAt fun second => ?_
  refine .ite (fun _ => Fails.fail.follows) fun _ => .ite (fun _ => ?_) fun _ => Fails.fail.follows
  cases (if second.map Token.kind = some (.identifier "if") then Construct.placeElseIf enclosing
    else Construct.placeElse enclosing) with
  | ok => exact .pure _
  | error cause => exact Fails.fail.follows

section
variable {nested : List Construct → Watched (List Node)}
  {nested' : List Construct → Parser (List Node)} {n m budget : Nat}
  (hnested : ∀ {l : Nat}, l ≤ n → ∀ inner,
    Follows (Ready l Mark.ranks) (nested inner) (nested' inner) false)
include hnested

theorem alternateTurns_follows (enclosing : List Construct) (hm : m ≤ n) (hbudget : m ≤ budget)
    (hasElse : Bool) : Follows (Ready m Mark.ranks) (alternateTurns nested enclosing budget hasElse)
      (Node.alternates nested' enclosing budget hasElse) true := by
  induction budget generalizing m hasElse with
  | zero => exact .exhausted hbudget
  | succ budget ih =>
    rw [alternateTurns, Node.alternates]
    simp only [Parser.discard_bind]
    refine .within (by decide) (.step .takeRequired fun token => .ite (fun _ => ?_) fun _ => ?_)
    · refine .look .take fun _ => .look .takeWord fun word => .ite (fun _ => ?_) fun _ => ?_
      · refine .step (expression_follows (by decide)) fun condition => ?_
        refine .step .expectClose fun _ => .look (hnested (by omega) _) fun body => ?_
        exact .step (ih (by omega) (by omega) _) fun more => .pure _
      · refine .step .expectClose fun _ => .look (hnested (by omega) _) fun body => ?_
        exact .step (ih (by omega) (by omega) _) fun more => .pure _
    · exact .step .expectClose fun last => .pure _

theorem ifBlock_follows (enclosing : List Construct) (hm : m ≤ n) (hbudget : m ≤ budget)
    (start : Span) : Follows (Ready m Mark.ranks) (ifBlock nested enclosing budget start)
      (Node.ifBlockParser nested' enclosing budget start) true := by
  rw [ifBlock, Node.ifBlockParser]
  simp only [Parser.discard_bind]
  refine .within (by decide) (.step (expression_follows (by decide)) fun condition => ?_)
  refine .step .expectClose fun _ => .look (hnested (by omega) _) fun consequent => ?_
  exact .step (alternateTurns_follows hnested enclosing (by omega) (by omega) _) fun r => .pure _

theorem fallbackTurns_follows (enclosing : List Construct) (hm : m ≤ n) (hbudget : m ≤ budget)
    (earlier : Option (List Node)) :
    Follows (Ready m Mark.ranks) (fallbackTurns nested enclosing budget earlier)
      (Node.fallback nested' enclosing budget earlier) true := by
  induction budget generalizing m earlier with
  | zero => exact .exhausted hbudget
  | succ budget ih =>
    rw [fallbackTurns, Node.fallback]
    simp only [Parser.discard_bind]
    refine .within (by decide) (.step .takeRequired fun token => .ite (fun _ => ?_) fun _ => ?_)
    · refine .look .take fun _ => .step .expectClose fun _ => ?_
      exact .look (hnested (by omega) _) fun body => (ih (by omega) (by omega) _).weaken
    · exact .step .expectClose fun last => .pure _

theorem eachBlock_follows (enclosing : List Construct) (hm : m ≤ n) (hbudget : m ≤ budget)
    (start : Span) : Follows (Ready m Mark.ranks) (eachBlock nested enclosing budget start)
      (Node.eachBlockParser nested' enclosing budget start) true := by
  rw [eachBlock, Node.eachBlockParser]
  simp only [Parser.discard_bind]
  refine .within (by decide) (.step (expression_follows (by decide)) fun iterable => ?_)
  refine .look .takeWord fun word => .ite (fun _ => .failExpecting_bind) fun _ => ?_
  refine .step pattern_follows fun item => .look .takeSymbol fun comma => ?_
  refine .ite (fun _ => .step (.name (by decide)) fun _ => .look (.pure _) ?_) fun _ =>
    .look (.pure _) ?_
  -- With an index or without, the rest of the block is the same.
  all_goals
    refine fun index => .step .expectClose fun _ => .look (hnested (by omega) _) fun body => ?_
    exact .step (fallbackTurns_follows hnested enclosing (by omega) (by omega) _) fun r => .pure _

theorem tag_follows (enclosing : List Construct) (hm : m ≤ n) (hbudget : m ≤ budget)
    (start : Span) (name : String) :
    Follows (Ready m Mark.ranks) (tag nested enclosing budget start name)
      (Node.tagParser nested' enclosing budget start name) true := by
  rw [tag, Node.tagParser]
  refine .within (by decide) (.step (attributeTurns_follows hbudget []) fun r => ?_)
  refine .look (checkLiteral_follows r.1 (length_literalAttributes _)) fun _ => ?_
  refine .ite (fun _ => .pure _) fun _ => .look (hnested (by omega) _) fun children => ?_
  exact .step .takeRequired fun token => .pure _

end

theorem nodeTurns_follows (budget : Nat) (enclosing : List Construct) :
    Follows (Ready budget (Mark.start .nodes).rank) (nodeTurns budget enclosing)
      (Node.list budget enclosing) false := by
  -- Behind a token one turn less is enough, for the nodes inside and for those that come next.
  induction budget generalizing enclosing with
  | zero => exact .exhausted (Nat.le_refl _)
  | succ budget ih =>
    have hrest {l : Nat} (hl : l ≤ budget) (node : Node) : Follows (Ready l Mark.ranks)
        (return node :: (← nodeTurns budget enclosing))
        (return node :: (← Node.list budget enclosing)) false :=
      .look ((ih enclosing).mono hl (by decide)) fun more => .pure _
    have hnested {l : Nat} (hl : l ≤ budget) (inner : List Construct) : Follows (Ready l Mark.ranks)
        (within (.start .nodes) (nodeTurns budget inner)) (Node.list budget inner) false :=
      .within (by decide) ((ih inner).mono hl (Nat.le_refl _))
    unfold nodeTurns Node.list
    simp only [Parser.discard_bind]
    refine .within (by decide) (.peek_bind ?_ ?_)
    · cases enclosing with
      | nil => exact .pure _
      | cons inner outer => exact Fails.failAtEnd.follows
    rintro ⟨kind, span⟩
    cases kind with
    | text value => exact .take_facing fun _ => hrest (by omega) _
    | mustacheOpen =>
      refine .take_facing fun _ => .step (expression_follows (by decide)) fun value => ?_
      exact .step .expectClose fun last => hrest (by omega) _
    | blockOpen name =>
      refine .take_facing fun _ => .ite (fun _ => ?_) fun _ => .ite (fun _ => ?_) fun _ => ?_
      · exact .step (ifBlock_follows hnested enclosing (by omega) (by omega) _) (hrest (by omega))
      · exact .step (eachBlock_follows hnested enclosing (by omega) (by omega) _) (hrest (by omega))
      · exact Fails.fail.bind.follows
    | blockBranch =>
      refine Follows.before ?_ fun _ => Facing.toReady
      exact .look (checkBranch_follows _ _) fun _ => .pure _
    | blockClose name => exact .ite (fun _ => .pure _) fun _ => Fails.fail.follows
    | tagOpen name =>
      exact .take_facing fun _ =>
        .step (tag_follows hnested enclosing (by omega) (by omega) _ _) (hrest (by omega))
    | tagClose name => exact .ite (fun _ => .pure _) fun _ => Fails.fail.follows
    | _ => exact Fails.fail.follows

theorem config_follows {n rank : Nat} :
    Follows (Ready n rank) config Node.configParser false := by
  rw [config, Node.configParser]
  simp only [Parser.discard_bind]
  refine .peek_bind (.pure _) ?_
  rintro ⟨kind, span⟩
  cases kind with
  | config body =>
    refine .take_facing fun _ => ?_
    cases Config.entries? body with
    | some entries => exact .pure _
    | none => exact Fails.fail.follows
  | _ => exact .pure _

/-- Nothing is around a document, so no watch stops its reader. -/
theorem document_follows {n : Nat} :
    Follows (Ready n Mark.ranks) document Document.parser false := by
  refine .within (by decide) (.look config_follows fun opening => .budget_bind fun budget => ?_)
  exact .look (.within (by decide) (nodeTurns_follows budget [])) fun nodes => .pure _

end Watched

-- ---------------------------------------------------------------------------
-- Parsing
-- ---------------------------------------------------------------------------

/-- Parsing has the outcome that it has under watch. There is none where the number of turns runs
out, nor where a routine of the grammar starts inside itself or a loop takes another turn, unless a
token has been taken in between and the tokens in the buffer and the characters behind them have
become fewer. After the lexer has failed there is none either, so its error is that of the parse. -/
theorem parse_advances (source : String) :
    (∃ w, Watched.document (start (.document source)) = some (parseDocument source, w) ∧
      ∀ e, w.failure = some e → parseDocument source = .error e) ∧
    (∃ w, Watched.expression (start (.expression source)) = some (parseExpression source, w) ∧
      ∀ e, w.failure = some e → parseExpression source = .error e) ∧
    (∀ (w : Watch) (p : Passage), p ∈ w.passages →
      ¬ (p.taken < w.taken ∧ w.buffer.length + w.lexer.rest.length < p.left) →
        ∀ {α : Type} (body : Watched α), Watched.within p.mark body w = none) ∧
    ∀ (w : Watch) (e : CompileError), w.failure = some e → ∀ {α : Type},
      (∀ action : Action Watch α, Watched.operate action w = none) ∧
        ∀ (mark : Mark) (body : Watched α), Watched.within mark body w = none := by
  refine ⟨Watched.Follows.run fun n => Watched.document_follows,
    Watched.Follows.run fun n => Watched.expression_follows (by decide),
    fun w p hp hstays α body => if_neg fun h => hstays (h.2 p hp rfl), fun w e he α => ?_⟩
  have hfailed : ¬ w.failure.isNone := by simp [he]
  exact ⟨fun action => if_neg hfailed, fun mark body => if_neg fun h => hfailed h.1⟩

/-- An expression that cannot be lexed, and one that would start again in front of it. -/
theorem parse_advances_unlexable :
    let source := "\x7b@\x7d"
    let passage : Passage := ⟨.start .expression, 0, 3⟩
    let again : Watch := { start (.expression source) with passages := [passage] }
    ∃ w e, Watched.document (start (.document source)) = some (parseDocument source, w) ∧
      w.failure = some e ∧ parseDocument source = .error e ∧
        Watched.operate Watch.take w = none ∧
          Watched.within passage.mark Watched.expression again = none := by
  intro source passage again
  obtain ⟨⟨w, hrun, herror⟩, -, hstays, hends⟩ := parse_advances source
  have hfailure : (Watched.document (start (.document source))).map (·.2.failure) =
      some (some ⟨.unsupportedOperator "@", ⟨1, 2, 1, 2⟩⟩) := by decide +kernel
  rw [hrun] at hfailure
  have hw := Option.some.inj hfailure
  exact ⟨w, _, hrun, hw, herror _ hw, (hends w _ hw).1 _,
    hstays again passage (.head _) (by decide) _⟩

end PromptTemplate
