import PromptTemplate.Config
import PromptTemplate.Expr.Parser
import PromptTemplate.Node

/-!
# Reading documents

Nodes are read up to the closer, or the branch, of the innermost construct that is open; the
reader of that construct takes it. The constructs around a place are handed down, so what may
close there is known without going back.
-/

namespace PromptTemplate

/-- A construct that waits for its closer. -/
inductive Construct where
  | ifBlock (hasElse : Bool)
  | eachBlock (hasElse : Bool)
  | tag (name : String)
deriving DecidableEq

namespace Construct

def describe : Construct → String
  | ifBlock _ => "\x7b#if\x7d"
  | eachBlock _ => "\x7b#each\x7d"
  | tag name => "<" ++ name ++ ">"

def closer : Construct → String
  | ifBlock _ => "\x7b/if\x7d"
  | eachBlock _ => "\x7b/each\x7d"
  | tag name => "</" ++ name ++ ">"

def isIf : Construct → Bool
  | ifBlock _ => true
  | _ => false

def isBlock : Construct → Bool
  | tag _ => false
  | _ => true

def closedByBlock (name : String) : Construct → Bool
  | ifBlock _ => name = "if"
  | eachBlock _ => name = "each"
  | tag _ => false

/-- Where an alternative with a condition of its own may stand; else what is wrong. Constructs are
listed innermost first. -/
def placeElseIf : List Construct → Except Cause Unit
  | ifBlock false :: _ => .ok ()
  | inner :: outer =>
    if (inner :: outer).any isIf then .error (.elseIfBeforeClosing inner.describe)
    else .error .elseIfOutsideIf
  | [] => .error .elseIfOutsideIf

/-- Where the last alternative may stand; else what is wrong. -/
def placeElse : List Construct → Except Cause Unit
  | ifBlock false :: _ => .ok ()
  | eachBlock false :: _ => .ok ()
  | inner :: outer =>
    if (inner :: outer).any isBlock then .error (.elseBeforeClosing inner.describe)
    else .error .elseOutsideBlock
  | [] => .error .elseOutsideBlock

end Construct

namespace Pattern

open PromptTemplate.Parser

def exhausted {α : Type} : Parser α := failAtEnd (.unexpectedEnd "\x7d")

def entries (nested : Parser Pattern) : (budget : Nat) → Parser (List (Ident × Pattern))
  | 0 => exhausted
  | budget + 1 => do
    if (← takeSymbol .braceClose).isSome then return []
    let (name, span) ← name
    let key : Ident := ⟨name, span⟩
    let binding ←
      if (← takeSymbol .colon).isSome then nested else pure (Pattern.ident key)
    if (← takeSymbol .comma).isSome then
      return (key, binding) :: (← entries nested budget)
    discard <| expectSymbol .braceClose
    return [(key, binding)]

def items (nested : Parser Pattern) : (budget : Nat) → Parser (List Pattern)
  | 0 => exhausted
  | budget + 1 => do
    if (← takeSymbol .bracketClose).isSome then return []
    let first ← nested
    if (← takeSymbol .comma).isSome then
      return first :: (← items nested budget)
    discard <| expectSymbol .bracketClose
    return [first]

def patterns : (budget : Nat) → Parser Pattern
  | 0 => exhausted
  | budget + 1 => do
    let token ← takeRequired "\x7d"
    match token.kind with
    | .identifier name => return .ident ⟨name, token.span⟩
    | .symbol .braceOpen => return .object (← entries (patterns budget) (budget + 1))
    | .symbol .bracketOpen => return .array (← items (patterns budget) (budget + 1))
    | _ => fail .expectedPattern token.span

def parser : Parser Pattern := do patterns (← budget)

end Pattern

namespace Attribute

open PromptTemplate.Parser

def valueParser : Parser AttributeValue := do
  if (← takeSymbol .assign).isNone then return .flag
  match ← take with
  | none => failAtEnd .missingAttributeValue
  | some token =>
    match token.kind with
    | .attributeValue text => return .literal text
    | .mustacheOpen =>
      let value ← Expr.parser
      discard expectClose
      return .expression value
    | .blockOpen block => fail (.misplacedBlock "used as an attribute value" block) token.span
    | _ => fail .missingAttributeValue token.span

structure Closing where
  selfClosing : Bool
  span : Span

/-- The attributes of a tag up to its end, after the ones in `earlier`. -/
def list : (budget : Nat) → (earlier : List Attribute) → Parser (List Attribute × Closing)
  | 0, _ => failAtEnd (.unexpectedEnd ">")
  | budget + 1, earlier => do
    let token ← takeRequired ">"
    match token.kind with
    | .attributeName name =>
      if (find? earlier name).isSome then fail .duplicateAttribute token.span
      else
        let value ← valueParser
        list budget (earlier ++ [⟨name, token.span, value⟩])
    | .tagEnd => return (earlier, ⟨false, token.span⟩)
    | .tagSelfClose => return (earlier, ⟨true, token.span⟩)
    | .blockOpen block =>
      fail (.misplacedBlock "placed inside a tag's attribute list" block) token.span
    | _ => fail (.unexpected ">") token.span

/-- Fails at the first attribute in `names` that is given by an expression. -/
def checkLiteral (attributes : List Attribute) : (names : List String) → Parser Unit
  | [] => return
  | name :: names =>
    match find? attributes name with
    | some ⟨_, span, .expression _⟩ => fail (.attributeNotLiteral name) span
    | _ => checkLiteral attributes names

end Attribute

namespace Node

open PromptTemplate.Parser

def exhausted {α : Type} : Parser α := failAtEnd (.unexpectedEnd "text")

/-- Looks at the words of a branch without taking them, and checks that it may stand here. -/
def checkBranch (enclosing : List Construct) (span : Span) : Parser Unit := do
  let first := (← peekAt 1).map Token.kind
  let second := (← peekAt 2).map Token.kind
  if first = some (.identifier "elseif") then fail .elseifSpelling span
  else if first = some (.identifier "else") then
    let placed :=
      if second = some (.identifier "if") then Construct.placeElseIf enclosing
      else Construct.placeElse enclosing
    match placed with
    | .ok () => return
    | .error cause => fail cause span
  else fail (.unexpected "else") span

/-- The alternatives of an if block and the end of its closer. `nested` reads the nodes inside given
constructs. -/
def alternates (nested : List Construct → Parser (List Node)) (enclosing : List Construct) :
    (budget : Nat) → (hasElse : Bool) → Parser (List Alternate × Span)
  | 0, _ => exhausted
  | budget + 1, hasElse => do
    let token ← takeRequired "\x7b/if\x7d"
    if token.kind = .blockBranch then
      discard take
      if ← takeWord "if" then
        let condition ← Expr.parser
        discard expectClose
        let body ← nested (.ifBlock hasElse :: enclosing)
        let (more, last) ← alternates nested enclosing budget hasElse
        return (.elseIf condition body :: more, last)
      else
        discard expectClose
        let body ← nested (.ifBlock true :: enclosing)
        let (more, last) ← alternates nested enclosing budget true
        return (.otherwise body :: more, last)
    else return ([], ← expectClose)

def ifBlockParser (nested : List Construct → Parser (List Node)) (enclosing : List Construct)
    (budget : Nat) (start : Span) : Parser Node := do
  let condition ← Expr.parser
  discard expectClose
  let consequent ← nested (.ifBlock false :: enclosing)
  let (alternates, last) ← alternates nested enclosing budget false
  return .ifBlock (start.join last) condition consequent alternates

/-- What a loop does when there is nothing to go through, and the end of its closer. -/
def fallback (nested : List Construct → Parser (List Node)) (enclosing : List Construct) :
    (budget : Nat) → (earlier : Option (List Node)) → Parser (Option (List Node) × Span)
  | 0, _ => exhausted
  | budget + 1, earlier => do
    let token ← takeRequired "\x7b/each\x7d"
    if token.kind = .blockBranch then
      discard take
      discard expectClose
      let body ← nested (.eachBlock true :: enclosing)
      fallback nested enclosing budget (some body)
    else return (earlier, ← expectClose)

def eachBlockParser (nested : List Construct → Parser (List Node)) (enclosing : List Construct)
    (budget : Nat) (start : Span) : Parser Node := do
  let iterable ← Expr.parser
  if !(← takeWord "as") then failExpecting "as"
  let item ← Pattern.parser
  let index ←
    if (← takeSymbol .comma).isSome then
      let (name, span) ← name
      pure (some (Ident.mk name span))
    else pure none
  discard expectClose
  let body ← nested (.eachBlock false :: enclosing)
  let (fallback, last) ← fallback nested enclosing budget none
  return .eachBlock (start.join last) iterable item index body fallback

def tagParser (nested : List Construct → Parser (List Node)) (enclosing : List Construct)
    (budget : Nat) (start : Span) (name : String) : Parser Node := do
  let kind := TagKind.ofName name
  let (attributes, closing) ← Attribute.list budget []
  Attribute.checkLiteral attributes kind.literalAttributes
  if closing.selfClosing then return .tag ⟨start.join closing.span, kind, name, attributes⟩ []
  else
    let children ← nested (.tag name :: enclosing)
    let token ← takeRequired (Construct.tag name).closer
    return .tag ⟨start.join token.span, kind, name, attributes⟩ children

/-- The nodes inside `enclosing`, innermost first, up to what closes or branches the innermost
one. -/
def list : (budget : Nat) → (enclosing : List Construct) → Parser (List Node)
  | 0, _ => exhausted
  | budget + 1, enclosing => do
    let nested := list budget
    match ← peek with
    | none =>
      match enclosing with
      | [] => return []
      | inner :: _ => failAtEnd (.unexpectedEnd inner.closer)
    | some token =>
      match token.kind with
      | .text value =>
        discard take
        return .text token.span value :: (← nested enclosing)
      | .mustacheOpen =>
        discard take
        let value ← Expr.parser
        let last ← expectClose
        return .mustache (token.span.join last) value :: (← nested enclosing)
      | .blockOpen name =>
        discard take
        let node ←
          if name = "if" then ifBlockParser nested enclosing (budget + 1) token.span
          else if name = "each" then eachBlockParser nested enclosing (budget + 1) token.span
          else fail .expectedBlockType token.span
        return node :: (← nested enclosing)
      | .blockBranch =>
        checkBranch enclosing token.span
        return []
      | .blockClose name =>
        if (enclosing.head?.any (·.closedByBlock name)) then return []
        else fail .unexpectedBlockClose token.span
      | .tagOpen name =>
        discard take
        let node ← tagParser nested enclosing (budget + 1) token.span name
        return node :: (← nested enclosing)
      | .tagClose name =>
        if enclosing.head? = some (.tag name) then return []
        else fail (.unexpectedTagClose name) token.span
      | _ => fail (.unexpected "text") token.span

/-- The section at the front of a document, if it has one. The error for a body that is refused has a
specified code and location; what its message gives as the reason is not (`Config.refusal`). -/
def configParser : Parser (List Node) := do
  match ← peek with
  | some ⟨.config body, span⟩ =>
    discard take
    match Config.entries? body with
    | some entries => return [.config span entries]
    | none => fail Config.refusal span
  | _ => return []

end Node

def Document.parser : Parser Document := do
  let opening ← Node.configParser
  let nodes ← Node.list (← Parser.budget) []
  return ⟨opening ++ nodes⟩

def parseDocument (source : String) : Except CompileError Document :=
  Prod.fst <$> Document.parser.run (Lexer.document source).stream

end PromptTemplate
