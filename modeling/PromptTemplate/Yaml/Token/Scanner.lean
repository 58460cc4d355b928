import PromptTemplate.Yaml.Scalar.Block
import PromptTemplate.Yaml.Scalar.Plain
import PromptTemplate.Yaml.Scalar.Quoted
import PromptTemplate.Yaml.Token.Tag

/-!
# From YAML text to tokens

A scalar turns out to be a key only when a colon follows it. The scanner therefore remembers, for
each level of brackets, where the last possible key started, and puts the token for the key in
front of it afterwards. Outside brackets columns open and close structures.
-/

namespace PromptTemplate.Yaml

structure PossibleKey where
  /-- Nothing else can stand in this column. -/
  required : Bool
  /-- The number of tokens before it. -/
  number : Nat
  index : Nat
  line : Nat
  column : Nat

structure Scanner where
  cursor : Cursor
  /-- One for each level of brackets, innermost first, and one for the outside. -/
  keys : List (Option PossibleKey)
  /-- The column of the innermost structure, minus one outside of all. -/
  indent : Int
  outerIndents : List Int
  keyAllowed : Bool
  /-- The last one first. -/
  tokens : List Token

namespace Scanner

def start (cs : List Char) : Scanner := ⟨⟨cs, 0, 0, 0⟩, [none], -1, [], true, []⟩

def inFlow (s : Scanner) : Bool := 1 < s.keys.length

def emit (s : Scanner) (token : Token) : Scanner := { s with tokens := token :: s.tokens }

/-- Puts a token in its place among the earlier ones. -/
def insert (s : Scanner) (number : Nat) (token : Token) : Scanner :=
  { s with tokens := s.tokens.insertIdx (s.tokens.length - number) token }

def skip (s : Scanner) (count : Nat) : Scanner := { s with cursor := s.cursor.skip count }

def allowKey (s : Scanner) (allowed : Bool) : Scanner := { s with keyAllowed := allowed }

/-- A key must be on one line and not too long. -/
def isStale (c : Cursor) (key : PossibleKey) : Bool :=
  key.line < c.line || key.index + 1024 < c.index

/-- Gives up a possible key, which fails if it was required. -/
def giveUp? (stale : PossibleKey → Bool) : Option PossibleKey → Option (Option PossibleKey)
  | none => some none
  | some key => if stale key then (if key.required then none else some none) else some (some key)

def dropStaleKeys? (s : Scanner) : Option Scanner := do
  let keys ← s.keys.mapM (giveUp? (isStale s.cursor))
  return { s with keys }

def removeKey? (s : Scanner) : Option Scanner :=
  match s.keys with
  | [] => some s
  | key :: outer => (giveUp? (fun _ => true) key).map fun key => { s with keys := key :: outer }

/-- Remembers that a key may start here. -/
def saveKey? (s : Scanner) : Option Scanner :=
  if s.keyAllowed then do
    let s ← s.removeKey?
    let c := s.cursor
    let key : PossibleKey :=
      ⟨!s.inFlow && s.indent = c.column, s.tokens.length, c.index, c.line, c.column⟩
    return { s with keys := some key :: s.keys.tail }
  else some s

/-- Opens a structure in a column that is further in; `place` puts its token. -/
def roll (s : Scanner) (column : Nat) (place : Scanner → Scanner) : Scanner :=
  if !s.inFlow && s.indent < column then
    place { s with indent := column, outerIndents := s.indent :: s.outerIndents }
  else s

/-- Closes the structures that are further in than a column. -/
def unroll (s : Scanner) (column : Int) : Scanner :=
  if s.inFlow then s else close s.outerIndents s
where
  close : List Int → Scanner → Scanner
    | [], s => s
    | outer :: more, s =>
      if column < s.indent then
        close more ({ s with indent := outer, outerIndents := more }.emit .blockEnd)
      else s

/-- Goes past blanks, comments and line breaks. A tab is a blank only where no key may start. A byte
order mark may start a line, where it has a column of its own. -/
def toToken : (budget : Nat) → Scanner → Scanner
  | 0, s => s
  | budget + 1, s =>
    let marked := s.cursor.column = 0 && startsWith isByteOrderMark s.cursor.rest
    let c := if marked then s.cursor.skip 1 else s.cursor
    let c := c.skipWhile fun ch => ch = ' ' || ((s.inFlow || !s.keyAllowed) && ch = '\t')
    let c := if startsWith (· = '#') c.rest then c.toLineEnd else c
    if startsWith isBreak c.rest then
      toToken budget { s with cursor := c.skipBreak, keyAllowed := s.keyAllowed || !s.inFlow }
    else { s with cursor := c }

/-- Ends everything before a directive or a document marker. -/
def reset? (s : Scanner) : Option Scanner :=
  (s.unroll (-1)).removeKey?.map (·.allowKey false)

def marker? (s : Scanner) (token : Token) : Option Scanner :=
  s.reset?.map fun s => (s.emit token).skip 3

def scanDirective? (s : Scanner) : Option Scanner := do
  let s ← s.reset?
  let (token, rest) ← directive? (s.cursor.rest.drop 1)
  return { s with cursor := s.cursor.upTo rest }.emit token

def openFlow? (s : Scanner) (token : Token) : Option Scanner :=
  s.saveKey?.map fun s => ({ s with keys := none :: s.keys, keyAllowed := true }.emit token).skip 1

def closeFlow? (s : Scanner) (token : Token) : Option Scanner :=
  s.removeKey?.map fun s =>
    let keys := if s.inFlow then s.keys.tail else s.keys
    ({ s with keys, keyAllowed := false }.emit token).skip 1

def flowEntry? (s : Scanner) : Option Scanner :=
  s.removeKey?.map fun s => ((s.allowKey true).emit .flowEntry).skip 1

def blockEntry? (s : Scanner) : Option Scanner :=
  if !s.inFlow && !s.keyAllowed then none
  else
    (s.roll s.cursor.column (·.emit .blockSequenceStart)).removeKey?.map fun s =>
      ((s.allowKey true).emit .blockEntry).skip 1

def key? (s : Scanner) : Option Scanner :=
  if !s.inFlow && !s.keyAllowed then none
  else
    (s.roll s.cursor.column (·.emit .blockMappingStart)).removeKey?.map fun s =>
      ((s.allowKey !s.inFlow).emit .key).skip 1

/-- A colon makes the possible key one, or stands for the value of a missing or an explicit key. -/
def value? (s : Scanner) : Option Scanner :=
  match s.keys with
  | some key :: outer =>
    let s := { s with keys := none :: outer, keyAllowed := false }.insert key.number .key
    some (((s.roll key.column (·.insert key.number .blockMappingStart)).emit .value).skip 1)
  | _ =>
    if !s.inFlow && !s.keyAllowed then none
    else
      let s := s.roll s.cursor.column (·.emit .blockMappingStart)
      some (((s.allowKey !s.inFlow).emit .value).skip 1)

def name? (s : Scanner) (token : String → Token) : Option Scanner := do
  let s ← s.saveKey?
  let (name, rest) ← anchorName? (s.cursor.rest.drop 1)
  return { s with cursor := s.cursor.upTo rest, keyAllowed := false }.emit (token name)

def scanTag? (s : Scanner) : Option Scanner := do
  let s ← s.saveKey?
  let (token, rest) ← tag? s.inFlow s.cursor.rest
  return { s with cursor := s.cursor.upTo rest, keyAllowed := false }.emit token

def blockScalar? (s : Scanner) (literal : Bool) : Option Scanner := do
  let s ← s.removeKey?
  let (text, cursor) ← Block.scan? literal s.indent s.cursor
  return { s with cursor, keyAllowed := true }.emit (.scalar false (String.ofList text))

def quotedScalar? (s : Scanner) (isDouble : Bool) : Option Scanner := do
  let s ← s.saveKey?
  let (text, cursor) ← Quoted.scan? isDouble s.cursor
  return { s with cursor, keyAllowed := false }.emit (.scalar false (String.ofList text))

def plainScalar? (s : Scanner) : Option Scanner := do
  let s ← s.saveKey?
  let scanned ← Plain.scan? s.inFlow (s.indent + 1) s.cursor
  return { s with cursor := scanned.cursor, keyAllowed := scanned.broken }.emit
    (.scalar true (String.ofList scanned.text))

/-- Characters that mean something at the start of a token. -/
def isIndicator (c : Char) : Bool := "-?:,[]\x7b\x7d#&*!|>'\"%@\x60".toList.contains c

def startsPlain (inFlow : Bool) (c : Char) (cs : List Char) : Bool :=
  !(isBlankOrBreak c || isIndicator c) || (c = '-' && !startsWith isBlank cs) ||
    (!inFlow && (c = '?' || c = ':') && !atGap cs)

/-- Takes one token, given the character it starts with and those after it. -/
def token? (s : Scanner) (c : Char) (cs : List Char) : Option Scanner :=
  if s.cursor.column = 0 && c = '%' then s.scanDirective?
  else if s.cursor.atMarker '-' then s.marker? .documentStart
  else if s.cursor.atMarker '.' then s.marker? .documentEnd
  else if c = '[' then s.openFlow? .flowSequenceStart
  else if c = '{' then s.openFlow? .flowMappingStart
  else if c = ']' then s.closeFlow? .flowSequenceEnd
  else if c = '}' then s.closeFlow? .flowMappingEnd
  else if c = ',' then s.flowEntry?
  else if c = '-' && atGap cs then s.blockEntry?
  else if c = '?' && (s.inFlow || atGap cs) then s.key?
  else if c = ':' && (s.inFlow || atGap cs) then s.value?
  else if c = '*' then s.name? .aliasOf
  else if c = '&' then s.name? .anchor
  else if c = '!' then s.scanTag?
  else if c = '|' && !s.inFlow then s.blockScalar? true
  else if c = '>' && !s.inFlow then s.blockScalar? false
  else if c = '\'' then s.quotedScalar? false
  else if c = '"' then s.quotedScalar? true
  else if startsPlain s.inFlow c cs then s.plainScalar?
  else none

/-- All tokens from here to the end. Each one takes at least one character. -/
def run? : (budget : Nat) → Scanner → Option (List Token)
  | 0, _ => none
  | budget + 1, s => do
    let s := s.toToken (s.cursor.rest.length + 1)
    let s ← s.dropStaleKeys?
    match s.cursor.rest with
    | [] => do
      let s ← s.reset?
      return s.tokens.reverse
    | c :: cs => run? budget (← (s.unroll s.cursor.column).token? c cs)

end Scanner

/-- The tokens of a text, none if it has a character or a construct that YAML does not have. -/
def tokens? (text : String) : Option (List Token) :=
  let cs := joinBreaks text.toList
  if cs.all isAllowed then (Scanner.start cs).run? (cs.length + 1) else none

end PromptTemplate.Yaml
