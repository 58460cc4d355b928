import PromptTemplate.Expr
import PromptTemplate.Parser

/-!
# Reading expressions

One parser for each level of the grammar, from assignments, which bind loosest, to single words.
All of them are given the parser for the expressions nested inside, which is called only after a
token has been taken; repetitions and nesting are bounded by a number above that of the tokens
left.
-/

namespace PromptTemplate.Expr

open PromptTemplate.Parser

/-- What no parser gets to, as each one takes tokens. -/
def exhausted {α : Type} : Parser α := failAtEnd (.unexpectedEnd "expression")

/-- Elements with commas between them, and one more comma if one likes, up to the closing symbol. -/
def elements (nested : Parser Expr) (close : Symbol) : (budget : Nat) → Parser (List Element × Span)
  | 0 => exhausted
  | budget + 1 => do
    match ← takeSymbol close with
    | some token => return ([], token.span)
    | none =>
      let spread := (← takeSymbol .ellipsis).isSome
      let value ← nested
      let element := if spread then Element.spread value else Element.single value
      match ← takeSymbol .comma with
      | some _ =>
        let (more, span) ← elements nested close budget
        return (element :: more, span)
      | none => return ([element], (← expectSymbol close).span)

/-- One entry of an object. A name alone stands for the variable of that name. -/
def entry (nested : Parser Expr) : Parser Entry := do
  if (← takeSymbol .ellipsis).isSome then return .spread (← nested)
  let token ← takeRequired "\x7d"
  match token.kind with
  | .identifier name =>
    if (← peekKind) = some (.symbol .colon) then
      discard <| expectSymbol .colon
      return .named name (← nested)
    else return .named name (.identifier token.span name)
  | .string name =>
    discard <| expectSymbol .colon
    return .named name (← nested)
  | .symbol .bracketOpen =>
    let key ← nested
    discard <| expectSymbol .bracketClose
    discard <| expectSymbol .colon
    return .computed key (← nested)
  | _ => fail .invalidObjectKey token.span

def entries (nested : Parser Expr) : (budget : Nat) → Parser (List Entry × Span)
  | 0 => exhausted
  | budget + 1 => do
    match ← takeSymbol .braceClose with
    | some token => return ([], token.span)
    | none =>
      let first ← entry nested
      match ← takeSymbol .comma with
      | some _ =>
        let (more, span) ← entries nested budget
        return (first :: more, span)
      | none => return ([first], (← expectSymbol .braceClose).span)

def ofWord (span : Span) (word : String) : Expr :=
  if word = "true" then .literal span (.bool true)
  else if word = "false" then .literal span (.bool false)
  else if word = "null" ∨ word = "undefined" then .literal span .null
  else .identifier span word

/-- A literal, a variable, a list, an object, or an expression in parentheses. -/
def primary (nested : Parser Expr) (budget : Nat) : Parser Expr := do
  let token ← takeRequired "expression"
  match token.kind with
  | .number value => return .literal token.span (.number value)
  | .string value => return .literal token.span (.string value)
  | .identifier word => return ofWord token.span word
  | .symbol .parenOpen =>
    let inner ← nested
    discard <| expectSymbol .parenClose
    return inner
  | .symbol .bracketOpen =>
    let (elements, last) ← elements nested .bracketClose budget
    return .array (token.span.join last) elements
  | .symbol .braceOpen =>
    let (entries, last) ← entries nested budget
    return .object (token.span.join last) entries
  | _ => fail (.unexpected "expression") token.span

/-- A key in brackets, after the opening one. -/
def bracketKey (nested : Parser Expr) : Parser (Property × Span) := do
  let key ← nested
  return (.computed key, (← expectSymbol .bracketClose).span)

def namedKey : Parser (Property × Span) := do
  let (name, span) ← name
  return (.named name, span)

/-- The member accesses and calls that follow an expression. -/
def links (nested : Parser Expr) : (budget : Nat) → Expr → Parser Expr
  | 0, _ => exhausted
  | budget + 1, base => do
    match ← peekKind with
    | some (.symbol .dot) =>
      discard take
      let (property, last) ← namedKey
      links nested budget (.member (base.span.join last) base property false)
    | some (.symbol .optionalDot) =>
      discard take
      let (property, last) ←
        if (← takeSymbol .bracketOpen).isSome then bracketKey nested else namedKey
      links nested budget (.member (base.span.join last) base property true)
    | some (.symbol .bracketOpen) =>
      discard take
      let (property, last) ← bracketKey nested
      links nested budget (.member (base.span.join last) base property false)
    | some (.symbol .parenOpen) =>
      discard take
      let (arguments, last) ← elements nested .parenClose (budget + 1)
      links nested budget (.call (base.span.join last) base arguments)
    | _ => return base

def updated (nested : Parser Expr) (budget : Nat) : Parser Expr := do
  let target ← links nested budget (← primary nested budget)
  match (← peekKind).bind UpdateOp.ofToken? with
  | some op =>
    let token ← takeRequired "expression"
    return .update (target.span.join token.span) op .after target
  | none => return target

def unaryOp? : TokenKind → Option UnaryOp
  | .symbol .bang => some .not
  | .symbol .minus => some .negate
  | .symbol .plus => some .plus
  | .symbol .tilde => some .complement
  | .identifier word => if word = "typeof" then some .typeOf else none
  | _ => none

def prefixed (nested : Parser Expr) : (budget : Nat) → Parser Expr
  | 0 => exhausted
  | budget + 1 => do
    match ← peek with
    | none => failAtEnd (.unexpectedEnd "expression")
    | some token =>
      match unaryOp? token.kind, UpdateOp.ofToken? token.kind with
      | some op, _ =>
        discard take
        let operand ← prefixed nested budget
        return .unary (token.span.join operand.span) op operand
      | none, some op =>
        discard take
        let target ← prefixed nested budget
        return .update (token.span.join target.span) op .before target
      | none, none => updated nested (budget + 1)

/-- Powers, which group to the right. -/
def powers (nested : Parser Expr) : (budget : Nat) → Parser Expr
  | 0 => exhausted
  | budget + 1 => do
    let base ← prefixed nested (budget + 1)
    match ← takeSymbol .power with
    | none => return base
    | some _ =>
      let exponent ← powers nested budget
      return .binary (base.span.join exponent.span) .power base exponent

def peekOperator (level : Nat) : Parser (Option BinaryOp) :=
  return ((← peekKind).bind BinaryOp.ofToken?).filter (·.level = level)

/-- What follows the first operand on a level whose operators group to the left. -/
def operations (operand : Parser Expr) (level : Nat) : (budget : Nat) → Expr → Parser Expr
  | 0, _ => exhausted
  | budget + 1, left => do
    match ← peekOperator level with
    | none => return left
    | some op =>
      discard take
      let right ← operand
      operations operand level budget (.binary (left.span.join right.span) op left right)

/-- A level of the binary operators above the one of `operand`. -/
def leftGrouped (budget : Nat) (level : Nat) (operand : Parser Expr) : Parser Expr := do
  operations operand level budget (← operand)

def binaries (nested : Parser Expr) (budget : Nat) : Parser Expr :=
  (List.range BinaryOp.power.level).foldr (leftGrouped budget) (powers nested budget)

def conditionals (nested : Parser Expr) (budget : Nat) : Parser Expr := do
  let test ← binaries nested budget
  match ← takeSymbol .question with
  | none => return test
  | some _ =>
    let consequent ← nested
    discard <| expectSymbol .colon
    let alternate ← nested
    return .conditional (test.span.join alternate.span) test consequent alternate

def assignments : (budget : Nat) → Parser Expr
  | 0 => exhausted
  | budget + 1 => do
    let nested := assignments budget
    let target ← conditionals nested (budget + 1)
    match (← peekKind).bind AssignOp.ofToken? with
    | none => return target
    | some op =>
      discard take
      let value ← nested
      return .assignment (target.span.join value.span) op target value

def parser : Parser Expr := do assignments (← budget)

end Expr

/-- The expression at the start of a text. What follows it is not looked at, but for one token. -/
def parseExpression (source : String) : Except CompileError Expr :=
  Prod.fst <$> Expr.parser.run (Lexer.expression source).stream

end PromptTemplate
