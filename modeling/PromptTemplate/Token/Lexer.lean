import PromptTemplate.CompileError
import PromptTemplate.Number.Numeral
import PromptTemplate.Text.Blank
import PromptTemplate.Text.Letter
import PromptTemplate.Token

/-!
# From text to tokens

The lexer is in one of three modes: text, which is the outermost one, an expression between braces,
or the inside of a tag. `Lexer.next` takes one token off the front. Since a lexer is a value, going
back to an earlier place is keeping an earlier lexer.
-/

namespace PromptTemplate

inductive Mode where
  /-- `depth` braces are open inside the expression. -/
  | expression (depth : Nat)
  | tag
deriving DecidableEq

structure Lexer where
  rest : List Char
  position : Position
  /-- Innermost first; text when there is none. -/
  modes : List Mode
  /-- The opening section has not been looked for yet. -/
  configPending : Bool

namespace Lexer

def document (source : String) : Lexer := ⟨source.toList, .start, [], true⟩

/-- At the start of an expression that stands without braces. -/
def expression (source : String) : Lexer := ⟨source.toList, .start, [.expression 0], false⟩

/-- A token, the end, or an error, and the lexer after it. -/
abbrev Step := Except CompileError (Option Token) × Lexer

def advance (l : Lexer) (count : Nat) : Lexer :=
  { l with rest := l.rest.drop count, position := l.position.afterAll (l.rest.take count) }

/-- Goes on to `rest`, a tail of the text. -/
def upTo (l : Lexer) (rest : List Char) : Lexer := l.advance (l.rest.length - rest.length)

def skipBlanks (l : Lexer) : Lexer := l.advance (l.rest.takeWhile Text.isBlank).length

def emit (l : Lexer) (start : Position) (kind : TokenKind) : Step :=
  (.ok (some ⟨kind, .between start l.position⟩), l)

def fail (l : Lexer) (start : Position) (cause : Cause) : Step :=
  (.error ⟨cause, .between start l.position⟩, l)

def finished (l : Lexer) : Step := (.ok none, l)

def enter (l : Lexer) (mode : Mode) : Lexer := { l with modes := mode :: l.modes }

def leave (l : Lexer) : Lexer := { l with modes := l.modes.tail }

/-- The longest run of characters of one class, and the lexer after it. -/
def takeRun (l : Lexer) (p : Char → Bool) : String × Lexer :=
  let run := l.rest.takeWhile p
  (String.ofList run, l.advance run.length)

/-! ## The opening section -/

/-- The lines of a text, each with the line feed that ends it. -/
def lines : List Char → List (List Char)
  | [] => []
  | c :: cs =>
    if c = '\n' then ['\n'] :: lines cs
    else match lines cs with
      | [] => [[c]]
      | line :: more => (c :: line) :: more

theorem flatten_lines (cs : List Char) : (lines cs).flatten = cs := by
  induction cs with
  | nil => rfl
  | cons c cs ih =>
    by_cases h : c = '\n'
    · simp [lines, h, ih]
    · cases hl : lines cs with
      | nil => simp_all [lines]
      | cons line more => simp_all [lines]

/-- Three dashes, up to blanks at the end of the line. -/
def isFence (line : List Char) : Bool := Text.dropBlankEnd line = ['-', '-', '-']

/-- The opening section, if the first line that is not blank is a fence. Its body goes up to the
next fence. -/
def config? (l : Lexer) : Option Step :=
  let opened := l.skipBlanks
  match lines opened.rest with
  | [] => none
  | first :: more =>
    if isFence first then
      let body := more.takeWhile (!isFence ·)
      match more.dropWhile (!isFence ·) with
      | [] =>
        let l := opened.advance opened.rest.length
        some (l.fail opened.position .unclosedConfig)
      | closing :: _ =>
        let l := opened.advance (first.length + body.flatten.length + closing.length)
        some (l.emit opened.position (.config (String.ofList body.flatten)))
    else none

/-! ## Text -/

def isEscapable (c : Char) : Bool :=
  c = '{' || c = '}' || c = '<' || c = '>' || c = '/' || c = '*' || c = '\\'

/-- A `<` opens a tag if a letter or a slash follows it. -/
def startsTag : List Char → Bool
  | c :: _ => c = '/' || c.isAlpha
  | [] => false

def startsLetter : List Char → Bool
  | c :: _ => c.isAlpha
  | [] => false

inductive TextStop where
  | atEnd
  | atMarkup
  | failure (error : CompileError)

structure TextRun where
  text : List Char
  stop : TextStop
  position : Position
  rest : List Char

def TextRun.push (c : Char) (run : TextRun) : TextRun := { run with text := c :: run.text }

/-- The text from `position` on, without its comments, up to the next brace or tag. `comment` is
where the comment around this place starts, if there is one. -/
def textRun (comment : Option Position) (position : Position) : List Char → TextRun
  | [] =>
    match comment with
    | none => ⟨[], .atEnd, position, []⟩
    | some start => ⟨[], .failure ⟨.unclosedComment, .between start position⟩, position, []⟩
  | [c] =>
    let next := position.after c
    match comment with
    | some start => ⟨[], .failure ⟨.unclosedComment, .between start next⟩, next, []⟩
    | none =>
      if c = '{' || c = '}' then ⟨[], .atMarkup, position, [c]⟩
      else ⟨[c], .atEnd, next, []⟩
  | c :: d :: cs =>
    let next := position.after c
    let beyond := next.after d
    match comment with
    | some start =>
      if c = '*' && d = '/' then textRun none beyond cs
      else textRun (some start) next (d :: cs)
    | none =>
      if c = '\\' && isEscapable d then (textRun none beyond cs).push d
      else if c = '/' && d = '*' then textRun (some position) beyond cs
      else if c = '*' && d = '/' then
        ⟨[], .failure ⟨.strayCommentEnd, .between position beyond⟩, beyond, cs⟩
      else if c = '{' || c = '}' || (c = '<' && startsTag (d :: cs)) then
        ⟨[], .atMarkup, position, c :: d :: cs⟩
      else (textRun none next (d :: cs)).push c

/-! ## Braces and tags -/

/-- The opening of a mustache or of a part of a block; an expression follows. -/
def brace (l : Lexer) : Step :=
  let start := l.position
  let l := l.advance 1
  let (kind, l) : TokenKind × Lexer :=
    match l.rest with
    | '#' :: _ => let (name, l) := (l.advance 1).takeRun Text.isIdentPart; (.blockOpen name, l)
    | ':' :: _ => (.blockBranch, l.advance 1)
    | '/' :: _ => let (name, l) := (l.advance 1).takeRun Text.isIdentPart; (.blockClose name, l)
    | _ => (.mustacheOpen, l)
  (l.enter (.expression 0)).emit start kind

/-- A closing tag; its name starts with a letter, and only blanks may follow the name. -/
def closingTag (l : Lexer) : Step :=
  let start := l.position
  let (name, l) := (l.advance 2).takeRun Text.isTagNamePart
  if !startsLetter name.toList then l.fail start .invalidTagName
  else
    let l := l.skipBlanks
    match l.rest with
    | '>' :: _ => (l.advance 1).emit start (.tagClose name)
    | _ => l.fail start (.unexpected ">")

/-- The start of an opening tag; a blank, a slash, an angle or the end must follow its name. -/
def openingTag (l : Lexer) : Step :=
  let start := l.position
  let (name, l) := (l.advance 1).takeRun Text.isTagNamePart
  let opened := (l.enter .tag).emit start (.tagOpen name)
  match l.rest with
  | [] => opened
  | c :: _ =>
    if c = '>' || c = '/' || Text.isBlank c then opened
    else (l.advance 1).fail start .invalidTagName

def nextText (l : Lexer) : Step :=
  let run := textRun none l.position l.rest
  let here := { l with position := run.position, rest := run.rest }
  match run.stop with
  | .failure error => (.error error, here)
  | .atEnd =>
    if run.text = [] then here.finished
    else here.emit l.position (.text (String.ofList run.text))
  | .atMarkup =>
    if run.text ≠ [] then here.emit l.position (.text (String.ofList run.text))
    else match here.rest with
      | '{' :: _ => here.brace
      | '}' :: _ => (here.advance 1).fail l.position .strayBrace
      | _ :: '/' :: _ => here.closingTag
      | _ => here.openingTag

/-- A quoted attribute value, after its opening quote. There are no escapes in it. -/
def attributeValue (l : Lexer) (start : Position) (quote : Char) : Step :=
  let value := l.rest.takeWhile (· ≠ quote)
  if value.length < l.rest.length then
    (l.advance (value.length + 1)).emit start (.attributeValue (String.ofList value))
  else (l.advance l.rest.length).fail start (.unclosedAttribute (String.singleton quote))

def nextTag (l : Lexer) : Step :=
  let l := l.skipBlanks
  let start := l.position
  match l.rest with
  | [] => l.finished
  | '/' :: '>' :: _ => ((l.advance 2).leave).emit start .tagSelfClose
  | '>' :: _ => ((l.advance 1).leave).emit start .tagEnd
  | '=' :: _ => (l.advance 1).emit start (.symbol .assign)
  | '{' :: _ => l.brace
  | c :: _ =>
    if c = '"' || c = '\'' then (l.advance 1).attributeValue start c
    else if Text.isAttributeStart c then
      let (name, l) := l.takeRun Text.isTagNamePart
      l.emit start (.attributeName name)
    else l.fail start (.unexpected ">")

/-! ## Expressions -/

/-- The character that a letter stands for after a backslash in a string. -/
def escapedChar (c : Char) : Char :=
  if c = 'n' then '\n' else if c = 't' then '\t' else if c = 'r' then '\r' else c

/-- The contents of a string after its opening quote, and the text after the closing one. -/
def stringBody? (quote : Char) : List Char → Option (List Char × List Char)
  | [] => none
  | [c] => if c = quote then some ([], []) else none
  | c :: d :: cs =>
    if c = quote then some ([], d :: cs)
    else if c = '\\' then
      (stringBody? quote cs).map fun (body, rest) => (escapedChar d :: body, rest)
    else (stringBody? quote (d :: cs)).map fun (body, rest) => (c :: body, rest)

def string (l : Lexer) (quote : Char) : Step :=
  match stringBody? quote (l.rest.drop 1) with
  | some (body, rest) => (l.upTo rest).emit l.position (.string (String.ofList body))
  | none =>
    (l.advance l.rest.length).fail l.position (.unexpectedEnd (String.singleton quote))

def startsNumber : List Char → Bool
  | '.' :: c :: _ => c.isDigit
  | c :: _ => c.isDigit
  | [] => false

def startsDigit : List Char → Bool
  | c :: _ => c.isDigit
  | [] => false

/-- The longest symbol in front. A digit after `?.` makes it a question mark and a fraction. -/
def symbol? (cs : List Char) : Option Symbol :=
  Symbol.table.find? fun symbol =>
    symbol.text.toList.isPrefixOf cs && !(symbol = .optionalDot && startsDigit (cs.drop 2))

def nextExpression (l : Lexer) (depth : Nat) (outer : List Mode) : Step :=
  let l := l.skipBlanks
  let start := l.position
  match l.rest with
  | [] => l.finished
  | '{' :: _ =>
    ({ l.advance 1 with modes := .expression (depth + 1) :: outer }).emit start (.symbol .braceOpen)
  | '}' :: _ =>
    match depth with
    | 0 => ({ l.advance 1 with modes := outer }).emit start .mustacheClose
    | depth + 1 =>
      ({ l.advance 1 with modes := .expression depth :: outer }).emit start (.symbol .braceClose)
  | c :: _ =>
    if c = '"' || c = '\'' then l.string c
    else if startsNumber l.rest then
      let (numeral, rest) := Number.takeNumeral l.rest
      (l.upTo rest).emit start (.number (numeral.toFloat false))
    else if Text.isIdentStart c then
      let (name, l) := l.takeRun Text.isIdentPart
      l.emit start (.identifier name)
    else match symbol? l.rest with
      | some symbol => (l.advance symbol.text.length).emit start (.symbol symbol)
      | none => (l.advance 1).fail start (.unsupportedOperator (String.singleton c))

def nextInMode (l : Lexer) : Step :=
  match l.modes with
  | [] => l.nextText
  | .tag :: _ => l.nextTag
  | .expression depth :: outer => l.nextExpression depth outer

/-- The next token, none at the end of the text. -/
def next (l : Lexer) : Step :=
  let ready := { l with configPending := false }
  match if l.configPending then ready.config? else none with
  | some step => step
  | none => if ready.rest = [] then ready.finished else ready.nextInMode

end Lexer

end PromptTemplate
