import PromptTemplate.Token.Stream

/-!
# Parsers

A parser takes tokens off the front of a stream or fails with a located error. Looking at a token
that cannot be read fails with the error that ends the stream.
-/

namespace PromptTemplate

abbrev Parser := StateT TokenStream (Except CompileError)

namespace Parser

def fail {α : Type} (cause : Cause) (span : Span) : Parser α := fun _ => .error ⟨cause, span⟩

def failAtEnd {α : Type} (cause : Cause) : Parser α := fun stream =>
  match stream.stop with
  | .error error => .error error
  | .ok position => .error ⟨cause, .empty position⟩

/-- The token that comes after `ahead` others, none at the end of the text. -/
def peekAt (ahead : Nat) : Parser (Option Token) := fun stream =>
  match stream.tokens[ahead]? with
  | some token => .ok (some token, stream)
  | none =>
    match stream.stop with
    | .error error => .error error
    | .ok _ => .ok (none, stream)

def peek : Parser (Option Token) := peekAt 0

def peekKind : Parser (Option TokenKind) := return (← peek).map Token.kind

def take : Parser (Option Token) := do
  let token ← peek
  modify fun stream => { stream with tokens := stream.tokens.tail }
  return token

/-- The next token; `expected` names what the end of the text is in place of. -/
def takeRequired (expected : String) : Parser Token := do
  match ← take with
  | some token => return token
  | none => failAtEnd (.unexpectedEnd expected)

/-- Fails at the next token, or at the end of the text. -/
def failExpecting {α : Type} (expected : String) : Parser α := do
  match ← peek with
  | some token => fail (.unexpected expected) token.span
  | none => failAtEnd (.unexpectedEnd expected)

def takeIf (kind : TokenKind) : Parser (Option Token) := do
  match ← peek with
  | some token => if token.kind = kind then take else return none
  | none => return none

def takeSymbol (symbol : Symbol) : Parser (Option Token) := takeIf (.symbol symbol)

def takeWord (word : String) : Parser Bool := return (← takeIf (.identifier word)).isSome

def expectSymbol (symbol : Symbol) : Parser Token := do
  match ← takeSymbol symbol with
  | some token => return token
  | none => failExpecting symbol.text

def expectClose : Parser Span := do
  let token ← takeRequired "\x7d"
  if token.kind = .mustacheClose then return token.span
  else fail (.unexpected "\x7d") token.span

def name : Parser (String × Span) := do
  match ← take with
  | some ⟨.identifier name, span⟩ => return (name, span)
  | some token => fail .expectedName token.span
  | none => failAtEnd .expectedName

/-- One more than the tokens that are left. A parser that takes a token before each repetition never
repeats itself as often as that. -/
def budget : Parser Nat := return (← get).tokens.length + 1

end Parser

end PromptTemplate
