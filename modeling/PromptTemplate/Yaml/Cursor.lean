/-!
# Characters and places in YAML text

The characters that YAML text may hold, its line breaks, and a place in it. Columns count from zero.
-/

namespace PromptTemplate.Yaml

def isAllowed (c : Char) : Bool :=
  let n := c.toNat
  n = 9 || n = 10 || n = 13 || (0x20 ≤ n && n ≤ 0x7E) || n = 0x85 || (0xA0 ≤ n && n ≤ 0xD7FF) ||
    (0xE000 ≤ n && n ≤ 0xFFFD) || 0x10000 ≤ n

/-- Every spelling of the end of a line but two rare ones becomes a line feed. -/
def joinBreaks : List Char → List Char
  | '\r' :: '\n' :: cs => '\n' :: joinBreaks cs
  | c :: cs => (if c = '\r' ∨ c.toNat = 0x85 then '\n' else c) :: joinBreaks cs
  | [] => []

/-- A line feed, a line separator or a paragraph separator. -/
def isBreak (c : Char) : Bool := c = '\n' || c.toNat = 0x2028 || c.toNat = 0x2029

def isBlank (c : Char) : Bool := c = ' ' || c = '\t'

def isBlankOrBreak (c : Char) : Bool := isBlank c || isBreak c

/-- Characters of anchors, handles and directives. -/
def isWordChar (c : Char) : Bool := c.isAlphanum || c = '_' || c = '-'

def isByteOrderMark (c : Char) : Bool := c.toNat = 0xFEFF

def endsOr (p : Char → Bool) : List Char → Bool
  | [] => true
  | c :: _ => p c

def startsWith (p : Char → Bool) : List Char → Bool
  | [] => false
  | c :: _ => p c

/-- A word is over here. -/
def atGap (cs : List Char) : Bool := endsOr isBlankOrBreak cs

structure Cursor where
  rest : List Char
  /-- The bytes in UTF-8 before this place, a line break counting as one. -/
  index : Nat
  line : Nat
  column : Nat

namespace Cursor

/-- Goes past characters that do not end a line. -/
def skip (c : Cursor) (count : Nat) : Cursor :=
  let index := (c.rest.take count).foldl (fun index ch => index + ch.utf8Size) c.index
  { c with rest := c.rest.drop count, index, column := c.column + count }

def skipBreak (c : Cursor) : Cursor :=
  { rest := c.rest.drop 1, index := c.index + 1, line := c.line + 1, column := 0 }

/-- Goes to `rest`, which follows on the same line. -/
def upTo (c : Cursor) (rest : List Char) : Cursor := c.skip (c.rest.length - rest.length)

def skipWhile (c : Cursor) (p : Char → Bool) : Cursor := c.skip (c.rest.takeWhile p).length

def toLineEnd (c : Cursor) : Cursor := c.skipWhile (!isBreak ·)

/-- Three dashes or dots that stand for themselves at the start of a line. -/
def atMarker (c : Cursor) (mark : Char) : Bool :=
  c.column = 0 && c.rest.take 3 = [mark, mark, mark] && atGap (c.rest.drop 3)

def atDocumentMarker (c : Cursor) : Bool := c.atMarker '-' || c.atMarker '.'

end Cursor

/-- What is between two stretches of a scalar: blanks, or line breaks. -/
structure Gap where
  blanks : List Char
  breaks : List Char

namespace Gap

def none : Gap := ⟨[], []⟩

/-- One line feed becomes a space; of several, the first one goes. -/
def foldBreaks : List Char → List Char
  | ['\n'] => [' ']
  | '\n' :: more => more
  | breaks => breaks

def text (gap : Gap) : List Char :=
  if gap.breaks.isEmpty then gap.blanks else foldBreaks gap.breaks

/-- The gap in front. Blanks count only until the first break; `admits` tells whether one may
stand in a column after a break. -/
def scan? (admits : Char → Nat → Bool) :
    (budget : Nat) → (broken : Bool) → Cursor → Option (Gap × Cursor)
  | 0, _, c => some (none, c)
  | budget + 1, broken, c =>
    match c.rest with
    | [] => some (none, c)
    | ch :: _ =>
      if isBlank ch then
        if broken && !admits ch c.column then .none
        else do
          let (more, c) ← scan? admits budget broken (c.skip 1)
          return ({ more with blanks := if broken then more.blanks else ch :: more.blanks }, c)
      else if isBreak ch then do
        let (more, c) ← scan? admits budget true c.skipBreak
        return ({ more with breaks := ch :: more.breaks }, c)
      else some (none, c)

end Gap

end PromptTemplate.Yaml
