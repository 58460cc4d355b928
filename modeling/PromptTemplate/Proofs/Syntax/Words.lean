import PromptTemplate.Node
import PromptTemplate.Number.Numeral
import PromptTemplate.Token.Lexer

/-!
# The words of a tree

How a tree is written as a sequence of tokens: every compound expression
inside another one in parentheses, keys of objects as strings unless the
entry is a name that stands for itself, and patterns in full.
-/

namespace PromptTemplate

/-- The characters of an identifier. -/
def IsWord (name : String) : Prop :=
  ∃ first rest, name.toList = first :: rest ∧ Text.isIdentStart first ∧ ∀ c ∈ rest, Text.isIdentPart c

/-- Words that are no variables where an expression may stand. -/
def isReserved (name : String) : Bool :=
  name = "true" || name = "false" || name = "null" || name = "undefined" || name = "typeof"

/-- A literal for a number. -/
def Denotes (cs : List Char) (x : Float) : Prop :=
  Lexer.startsNumber cs ∧ ∃ numeral, Number.takeNumeral cs = (numeral, []) ∧ numeral.toFloat false = x

def Literal.word : Literal → TokenKind
  | null => .identifier "null"
  | bool true => .identifier "true"
  | bool false => .identifier "false"
  | number x => .number x
  | string s => .string s

def UnaryOp.word : UnaryOp → TokenKind
  | not => .symbol .bang
  | negate => .symbol .minus
  | plus => .symbol .plus
  | complement => .symbol .tilde
  | typeOf => .identifier "typeof"

def BinaryOp.word : BinaryOp → TokenKind
  | add => .symbol .plus
  | subtract => .symbol .minus
  | multiply => .symbol .times
  | divide => .symbol .divide
  | remainder => .symbol .remainder
  | power => .symbol .power
  | equal => .symbol .equal
  | notEqual => .symbol .notEqual
  | identical => .symbol .identical
  | notIdentical => .symbol .notIdentical
  | less => .symbol .less
  | atMost => .symbol .atMost
  | greater => .symbol .greater
  | atLeast => .symbol .atLeast
  | and => .symbol .and
  | or => .symbol .or
  | nullish => .symbol .nullish
  | bitAnd => .symbol .ampersand
  | bitOr => .symbol .bar
  | bitXor => .symbol .caret
  | shiftLeft => .symbol .shiftLeft
  | shiftRight => .symbol .shiftRight
  | unsignedShiftRight => .symbol .unsignedShiftRight
  | isIn => .identifier "in"
  | instanceOf => .identifier "instanceof"

def AssignOp.word : AssignOp → TokenKind
  | assign => .symbol .assign
  | add => .symbol .plusAssign
  | subtract => .symbol .minusAssign
  | multiply => .symbol .timesAssign
  | divide => .symbol .divideAssign
  | remainder => .symbol .remainderAssign

def UpdateOp.word : UpdateOp → TokenKind
  | increment => .symbol .increment
  | decrement => .symbol .decrement

@[simp] theorem BinaryOp.ofToken?_word (op : BinaryOp) : ofToken? op.word = some op := by
  cases op <;> rfl

@[simp] theorem AssignOp.ofToken?_word (op : AssignOp) : ofToken? op.word = some op := by
  cases op <;> rfl

@[simp] theorem UpdateOp.ofToken?_word (op : UpdateOp) : ofToken? op.word = some op := by
  cases op <;> rfl

-- ---------------------------------------------------------------------------
-- Expressions
-- ---------------------------------------------------------------------------

def wrap (inside : Bool) (words : List TokenKind) : List TokenKind :=
  if inside then .symbol .parenOpen :: words ++ [.symbol .parenClose] else words

/-- The value of an entry that is a name alone. -/
def Expr.isNamed (key : String) : Expr → Bool
  | .identifier _ name => name = key
  | _ => false

mutual

/-- The words of an expression, which stands inside another one or not. -/
def Expr.words (inside : Bool) : Expr → List TokenKind
  | .literal _ value => [value.word]
  | .identifier _ name => [.identifier name]
  | .member _ object property optional =>
    wrap inside (object.words true ++ property.words optional)
  | .array _ elements =>
    wrap inside (.symbol .bracketOpen :: Element.words [] elements ++ [.symbol .bracketClose])
  | .object _ entries =>
    wrap inside (.symbol .braceOpen :: Entry.words [] entries ++ [.symbol .braceClose])
  | .call _ callee arguments =>
    wrap inside (callee.words true ++
      .symbol .parenOpen :: Element.words [] arguments ++ [.symbol .parenClose])
  | .unary _ op operand => wrap inside (op.word :: operand.words true)
  | .binary _ op left right => wrap inside (left.words true ++ op.word :: right.words true)
  | .conditional _ test consequent alternate =>
    wrap inside (test.words true ++ .symbol .question :: consequent.words true ++
      .symbol .colon :: alternate.words true)
  | .assignment _ op target value => wrap inside (target.words true ++ op.word :: value.words true)
  | .update _ op .before target => wrap inside (op.word :: target.words true)
  | .update _ op .after target => wrap inside (target.words true ++ [op.word])

def Property.words (optional : Bool) : Property → List TokenKind
  | .named name => [.symbol (if optional then .optionalDot else .dot), .identifier name]
  | .computed key =>
    (if optional then [.symbol .optionalDot] else []) ++
      .symbol .bracketOpen :: key.words true ++ [.symbol .bracketClose]

/-- Elements with commas between them, and `before` in front of the first. -/
def Element.words (before : List TokenKind) : List Element → List TokenKind
  | [] => []
  | .single value :: rest => before ++ value.words true ++ Element.words [.symbol .comma] rest
  | .spread value :: rest =>
    before ++ .symbol .ellipsis :: value.words true ++ Element.words [.symbol .comma] rest

def Entry.words (before : List TokenKind) : List Entry → List TokenKind
  | [] => []
  | .named key value :: rest =>
    before ++ (if value.isNamed key then [.identifier key]
        else .string key :: .symbol .colon :: value.words true) ++
      Entry.words [.symbol .comma] rest
  | .computed key value :: rest =>
    before ++ .symbol .bracketOpen :: key.words true ++ .symbol .bracketClose :: .symbol .colon ::
      value.words true ++ Entry.words [.symbol .comma] rest
  | .spread value :: rest =>
    before ++ .symbol .ellipsis :: value.words true ++ Entry.words [.symbol .comma] rest

end

mutual

/-- Identifiers are words and numbers have literals. -/
def Expr.WellFormed : Expr → Prop
  | .literal _ (.number x) => ∃ cs, Denotes cs x
  | .literal _ _ => True
  | .identifier _ name => IsWord name ∧ isReserved name = false
  | .member _ object property _ => object.WellFormed ∧ property.WellFormed
  | .array _ elements => Element.AllWellFormed elements
  | .object _ entries => Entry.AllWellFormed entries
  | .call _ callee arguments => callee.WellFormed ∧ Element.AllWellFormed arguments
  | .unary _ _ operand => operand.WellFormed
  | .binary _ _ left right => left.WellFormed ∧ right.WellFormed
  | .conditional _ test consequent alternate =>
    test.WellFormed ∧ consequent.WellFormed ∧ alternate.WellFormed
  | .assignment _ _ target value => target.WellFormed ∧ value.WellFormed
  | .update _ _ _ target => target.WellFormed

def Property.WellFormed : Property → Prop
  | .named name => IsWord name
  | .computed key => key.WellFormed

def Element.AllWellFormed : List Element → Prop
  | [] => True
  | .single value :: rest | .spread value :: rest => value.WellFormed ∧ Element.AllWellFormed rest

/-- A name alone may be any word, also a reserved one. -/
def Entry.AllWellFormed : List Entry → Prop
  | [] => True
  | .named key value :: rest =>
    (if value.isNamed key then IsWord key else value.WellFormed) ∧ Entry.AllWellFormed rest
  | .computed key value :: rest =>
    key.WellFormed ∧ value.WellFormed ∧ Entry.AllWellFormed rest
  | .spread value :: rest => value.WellFormed ∧ Entry.AllWellFormed rest

end

/-- Within another expression a compound one stands in parentheses. -/
theorem Expr.words_inside (e : Expr) :
    e.words true = .symbol .parenOpen :: e.words false ++ [.symbol .parenClose] ∨
    (∃ span value, e = .literal span value) ∨ ∃ span name, e = .identifier span name := by
  cases e with
  | literal span value => exact .inr (.inl ⟨span, value, rfl⟩)
  | identifier span name => exact .inr (.inr ⟨span, name, rfl⟩)
  | update span op side target => cases side <;> exact .inl rfl
  | _ => exact .inl rfl

theorem Expr.words_length_pos (e : Expr) : 0 < (e.words true).length := by
  rcases e.words_inside with h | ⟨_, _, rfl⟩ | ⟨_, _, rfl⟩
  · rw [h]
    exact Nat.zero_lt_succ _
  · exact Nat.one_pos
  · exact Nat.one_pos

theorem Expr.words_length (e : Expr) (inside : Bool) : 0 < (e.words inside).length := by
  cases inside with
  | true => exact e.words_length_pos
  | false =>
    rw [List.length_pos_iff]
    cases e with
    | update span op side target => cases side <;> simp [Expr.words, wrap]
    | member span object property optional => cases property <;> simp [Expr.words, wrap, Property.words]
    | _ => simp [Expr.words, wrap]

theorem Element.words_comma {elements : List Element} (h : elements ≠ []) :
    Element.words [.symbol .comma] elements = .symbol .comma :: Element.words [] elements := by
  cases elements with
  | nil => exact absurd rfl h
  | cons first rest => cases first <;> simp [Element.words]

theorem Entry.words_comma {entries : List Entry} (h : entries ≠ []) :
    Entry.words [.symbol .comma] entries = .symbol .comma :: Entry.words [] entries := by
  cases entries with
  | nil => exact absurd rfl h
  | cons first rest => cases first <;> simp [Entry.words]

-- ---------------------------------------------------------------------------
-- Patterns
-- ---------------------------------------------------------------------------

mutual

def Pattern.words : Pattern → List TokenKind
  | .ident name => [.identifier name.name]
  | .object entries =>
    .symbol .braceOpen :: Pattern.entryWords [] entries ++ [.symbol .braceClose]
  | .array items => .symbol .bracketOpen :: Pattern.itemWords [] items ++ [.symbol .bracketClose]

def Pattern.entryWords (before : List TokenKind) : List (Ident × Pattern) → List TokenKind
  | [] => []
  | (key, pattern) :: rest =>
    before ++ .identifier key.name :: .symbol .colon :: pattern.words ++
      Pattern.entryWords [.symbol .comma] rest

def Pattern.itemWords (before : List TokenKind) : List Pattern → List TokenKind
  | [] => []
  | pattern :: rest => before ++ pattern.words ++ Pattern.itemWords [.symbol .comma] rest

end

mutual

def Pattern.WellFormed : Pattern → Prop
  | .ident name => IsWord name.name
  | .object entries => Pattern.EntriesWellFormed entries
  | .array items => Pattern.ItemsWellFormed items

def Pattern.EntriesWellFormed : List (Ident × Pattern) → Prop
  | [] => True
  | (key, pattern) :: rest =>
    IsWord key.name ∧ pattern.WellFormed ∧ Pattern.EntriesWellFormed rest

def Pattern.ItemsWellFormed : List Pattern → Prop
  | [] => True
  | pattern :: rest => pattern.WellFormed ∧ Pattern.ItemsWellFormed rest

end

theorem Pattern.entryWords_comma {entries : List (Ident × Pattern)} (h : entries ≠ []) :
    entryWords [.symbol .comma] entries = .symbol .comma :: entryWords [] entries := by
  cases entries with
  | nil => exact absurd rfl h
  | cons first rest => simp [entryWords]

theorem Pattern.itemWords_comma {items : List Pattern} (h : items ≠ []) :
    itemWords [.symbol .comma] items = .symbol .comma :: itemWords [] items := by
  cases items with
  | nil => exact absurd rfl h
  | cons first rest => simp [itemWords]

end PromptTemplate
