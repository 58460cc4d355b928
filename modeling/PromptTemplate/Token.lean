import PromptTemplate.Span

/-!
# Tokens

The words of the template language. A symbol is an operator or a bracket of the expression
language; between tags the sign of equality is one too.
-/

namespace PromptTemplate

inductive Symbol where
  | ellipsis | identical | notIdentical | unsignedShiftRight
  | power | optionalDot | nullish | equal | notEqual | atMost | atLeast
  | and | or | increment | decrement
  | plusAssign | minusAssign | timesAssign | divideAssign | remainderAssign
  | shiftLeft | shiftRight
  | plus | minus | times | divide | remainder
  | less | greater | bang | assign
  | parenOpen | parenClose | bracketOpen | bracketClose
  | comma | dot | colon | question
  | ampersand | bar | caret | tilde
  | braceOpen | braceClose
deriving DecidableEq

namespace Symbol

def text : Symbol → String
  | ellipsis => "..."
  | identical => "==="
  | notIdentical => "!=="
  | unsignedShiftRight => ">>>"
  | power => "**"
  | optionalDot => "?."
  | nullish => "??"
  | equal => "=="
  | notEqual => "!="
  | atMost => "<="
  | atLeast => ">="
  | and => "&&"
  | or => "||"
  | increment => "++"
  | decrement => "--"
  | plusAssign => "+="
  | minusAssign => "-="
  | timesAssign => "*="
  | divideAssign => "/="
  | remainderAssign => "%="
  | shiftLeft => "<<"
  | shiftRight => ">>"
  | plus => "+"
  | minus => "-"
  | times => "*"
  | divide => "/"
  | remainder => "%"
  | less => "<"
  | greater => ">"
  | bang => "!"
  | assign => "="
  | parenOpen => "("
  | parenClose => ")"
  | bracketOpen => "["
  | bracketClose => "]"
  | comma => ","
  | dot => "."
  | colon => ":"
  | question => "?"
  | ampersand => "&"
  | bar => "|"
  | caret => "^"
  | tilde => "~"
  | braceOpen => "\x7b"
  | braceClose => "\x7d"

/-- The symbols found by their text alone, longer ones first. Braces are not among them, for they
also open and close the expression. -/
def table : List Symbol := [
  ellipsis, identical, notIdentical, unsignedShiftRight,
  power, optionalDot, nullish, equal, notEqual, atMost, atLeast, and, or, increment, decrement,
  plusAssign, minusAssign, timesAssign, divideAssign, remainderAssign, shiftLeft, shiftRight,
  plus, minus, times, divide, remainder, less, greater, bang, assign,
  parenOpen, parenClose, bracketOpen, bracketClose, comma, dot, colon, question,
  ampersand, bar, caret, tilde]

end Symbol

inductive TokenKind where
  /-- Plain text with its escapes resolved and its comments left out. -/
  | text (value : String)
  /-- The body of the section that opens a document. -/
  | config (body : String)
  | mustacheOpen
  | mustacheClose
  | blockOpen (name : String)
  | blockBranch
  | blockClose (name : String)
  | tagOpen (name : String)
  | tagEnd
  | tagSelfClose
  | tagClose (name : String)
  | attributeName (name : String)
  | attributeValue (value : String)
  | identifier (name : String)
  | symbol (symbol : Symbol)
  | number (value : Float)
  | string (value : String)
deriving DecidableEq

structure Token where
  kind : TokenKind
  span : Span
deriving DecidableEq

end PromptTemplate
