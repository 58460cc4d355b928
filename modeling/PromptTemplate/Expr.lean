import PromptTemplate.Token

/-!
# Expressions

The expression language. Every expression carries the span of the text it was read from; parentheses
leave no trace.
-/

namespace PromptTemplate

inductive Literal where
  | null
  | bool (value : Bool)
  | number (value : Float)
  | string (value : String)
deriving DecidableEq

inductive UnaryOp where
  | not | negate | plus | typeOf | complement
deriving DecidableEq

def UnaryOp.text : UnaryOp → String
  | not => "!"
  | negate => "-"
  | plus => "+"
  | typeOf => "typeof"
  | complement => "~"

/-- The operators from `bitAnd` on are part of the language, but have no meaning in it. -/
inductive BinaryOp where
  | add | subtract | multiply | divide | remainder | power
  | equal | notEqual | identical | notIdentical
  | less | atMost | greater | atLeast
  | and | or | nullish
  | bitAnd | bitOr | bitXor | shiftLeft | shiftRight | unsignedShiftRight
  | isIn | instanceOf
deriving DecidableEq

namespace BinaryOp

def text : BinaryOp → String
  | add => "+"
  | subtract => "-"
  | multiply => "*"
  | divide => "/"
  | remainder => "%"
  | power => "**"
  | equal => "=="
  | notEqual => "!="
  | identical => "==="
  | notIdentical => "!=="
  | less => "<"
  | atMost => "<="
  | greater => ">"
  | atLeast => ">="
  | and => "&&"
  | or => "||"
  | nullish => "??"
  | bitAnd => "&"
  | bitOr => "|"
  | bitXor => "^"
  | shiftLeft => "<<"
  | shiftRight => ">>"
  | unsignedShiftRight => ">>>"
  | isIn => "in"
  | instanceOf => "instanceof"

/-- How tightly an operator binds; powers bind tightest. -/
def level : BinaryOp → Nat
  | nullish => 0
  | or => 1
  | and => 2
  | bitOr => 3
  | bitXor => 4
  | bitAnd => 5
  | equal | notEqual | identical | notIdentical => 6
  | less | atMost | greater | atLeast | isIn | instanceOf => 7
  | shiftLeft | shiftRight | unsignedShiftRight => 8
  | add | subtract => 9
  | multiply | divide | remainder => 10
  | power => 11

def ofSymbol? : Symbol → Option BinaryOp
  | .plus => some add
  | .minus => some subtract
  | .times => some multiply
  | .divide => some divide
  | .remainder => some remainder
  | .power => some power
  | .equal => some equal
  | .notEqual => some notEqual
  | .identical => some identical
  | .notIdentical => some notIdentical
  | .less => some less
  | .atMost => some atMost
  | .greater => some greater
  | .atLeast => some atLeast
  | .and => some and
  | .or => some or
  | .nullish => some nullish
  | .ampersand => some bitAnd
  | .bar => some bitOr
  | .caret => some bitXor
  | .shiftLeft => some shiftLeft
  | .shiftRight => some shiftRight
  | .unsignedShiftRight => some unsignedShiftRight
  | _ => none

/-- The operator that a token stands for; two of them are words. -/
def ofToken? : TokenKind → Option BinaryOp
  | .symbol symbol => ofSymbol? symbol
  | .identifier name =>
    if name = "in" then some isIn else if name = "instanceof" then some instanceOf else none
  | _ => none

end BinaryOp

inductive AssignOp where
  | assign | add | subtract | multiply | divide | remainder
deriving DecidableEq

namespace AssignOp

def text : AssignOp → String
  | assign => "="
  | add => "+="
  | subtract => "-="
  | multiply => "*="
  | divide => "/="
  | remainder => "%="

def ofToken? : TokenKind → Option AssignOp
  | .symbol .assign => some assign
  | .symbol .plusAssign => some add
  | .symbol .minusAssign => some subtract
  | .symbol .timesAssign => some multiply
  | .symbol .divideAssign => some divide
  | .symbol .remainderAssign => some remainder
  | _ => none

end AssignOp

inductive UpdateOp where
  | increment | decrement
deriving DecidableEq

namespace UpdateOp

def text : UpdateOp → String
  | increment => "++"
  | decrement => "--"

def ofToken? : TokenKind → Option UpdateOp
  | .symbol .increment => some increment
  | .symbol .decrement => some decrement
  | _ => none

end UpdateOp

/-- Whether an update stands before its target and has the new value, or after it and has the old
one. -/
inductive UpdateSide where
  | before | after
deriving DecidableEq

mutual

inductive Expr where
  | literal (span : Span) (value : Literal)
  | identifier (span : Span) (name : String)
  | member (span : Span) (object : Expr) (property : Property) (optional : Bool)
  | array (span : Span) (elements : List Element)
  | object (span : Span) (entries : List Entry)
  | call (span : Span) (callee : Expr) (arguments : List Element)
  | unary (span : Span) (op : UnaryOp) (operand : Expr)
  | binary (span : Span) (op : BinaryOp) (left right : Expr)
  | conditional (span : Span) (test consequent alternate : Expr)
  | assignment (span : Span) (op : AssignOp) (target value : Expr)
  | update (span : Span) (op : UpdateOp) (side : UpdateSide) (target : Expr)

inductive Property where
  | named (name : String)
  | computed (key : Expr)

/-- An item of an array or an argument of a call. -/
inductive Element where
  | single (value : Expr)
  | spread (value : Expr)

inductive Entry where
  | named (key : String) (value : Expr)
  | computed (key value : Expr)
  | spread (value : Expr)

end

namespace Expr

def span : Expr → Span
  | literal span _ => span
  | identifier span _ => span
  | member span _ _ _ => span
  | array span _ => span
  | object span _ => span
  | call span _ _ => span
  | unary span _ _ => span
  | binary span _ _ _ => span
  | conditional span _ _ _ => span
  | assignment span _ _ _ => span
  | update span _ _ _ => span

/-- Assignments and updates are evaluated for their effect and leave no text. -/
def isSideEffect : Expr → Bool
  | assignment .. => true
  | update .. => true
  | _ => false

end Expr

end PromptTemplate
