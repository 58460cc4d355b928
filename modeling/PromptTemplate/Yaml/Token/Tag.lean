import PromptTemplate.Text.Hex
import PromptTemplate.Yaml.Cursor
import PromptTemplate.Yaml.Token

/-!
# Tags, anchors and directives

The parts of YAML that name things: each reader takes one off the front of a line.
-/

namespace PromptTemplate.Yaml

/-- May stand in a tag as it is; brackets and commas only in a full one. -/
def isUriChar (full : Bool) (c : Char) : Bool :=
  isWordChar c || ";/?:@&=+$.!~*'()".toList.contains c || (full && (c = ',' || c = '[' || c = ']'))

/-- One byte written as a percent sign and two digits. -/
def escapedByte? : List Char → Option (Nat × List Char)
  | '%' :: cs => Text.takeHex? 2 cs
  | _ => none

/-- Bytes that go on with a character, six bits each. -/
def continuation? : (count : Nat) → (code : Nat) → List Char → Option (Nat × List Char)
  | 0, code, cs => some (code, cs)
  | count + 1, code, cs => do
    let (byte, cs) ← escapedByte? cs
    if byte / 64 = 2 then continuation? count (64 * code + byte % 64) cs else none

/-- One character written as the bytes of its UTF-8 form. Bytes of that shape are none if they
spell a code point that is no character, or one that takes fewer bytes. -/
def escapedChar? (cs : List Char) : Option (Option Char × List Char) := do
  let (byte, cs) ← escapedByte? cs
  let (count, bits) ←
    if byte < 128 then some (0, byte)
    else if byte / 32 = 6 then some (1, byte % 32)
    else if byte / 16 = 14 then some (2, byte % 16)
    else if byte / 8 = 30 then some (3, byte % 8)
    else none
  let (code, cs) ← continuation? count bits cs
  return ((Text.charOfCode? code).filter (·.utf8Size = count + 1), cs)

def uri? (full : Bool) : (budget : Nat) → List Char → Option (Tag × List Char)
  | 0, _ => none
  | _ + 1, [] => some ([], [])
  | budget + 1, c :: cs =>
    if c = '%' then do
      let (char, cs) ← escapedChar? (c :: cs)
      let (more, cs) ← uri? full budget cs
      return (char :: more, cs)
    else if isUriChar full c then do
      let (more, cs) ← uri? full budget cs
      return (some c :: more, cs)
    else some ([], c :: cs)

def takeUri? (full : Bool) (cs : List Char) : Option (Tag × List Char) :=
  uri? full (cs.length + 1) cs

/-- An exclamation mark, a word, and one more mark if there is one. -/
def takeHandle? : List Char → Option (List Char × List Char)
  | '!' :: cs =>
    let word := cs.takeWhile isWordChar
    match cs.dropWhile isWordChar with
    | '!' :: rest => some ('!' :: word ++ ['!'], rest)
    | rest => some ('!' :: word, rest)
  | _ => none

/-- Has a mark at both ends, so that a name can stand behind it. -/
def isClosedHandle (handle : List Char) : Bool :=
  2 ≤ handle.length && handle.getLast? = some '!'

/-- A tag in angle brackets, or a handle and a name. The name ends before a null character; a single
mark without a name is a tag by itself. -/
def wholeTag? (cs : List Char) : Option (Token × List Char) :=
  match cs with
  | '!' :: '<' :: cs => do
    let (uri, rest) ← takeUri? true cs
    match uri, rest with
    | _ :: _, '>' :: rest => some (.tag "" uri.untilNull, rest)
    | _, _ => none
  | cs => do
    let (handle, rest) ← takeHandle? cs
    let (uri, rest) ← takeUri? false rest
    if isClosedHandle handle then
      if uri.isEmpty then none else some (.tag (String.ofList handle) uri.untilNull, rest)
    else
      let suffix := Tag.untilNull (Tag.ofChars (handle.drop 1) ++ uri)
      if suffix.isEmpty then some (.tag "" (Tag.ofChars ['!']), rest)
      else some (.tag "!" suffix, rest)

/-- A tag with what must follow it; inside brackets that may be a comma. -/
def tag? (inFlow : Bool) (cs : List Char) : Option (Token × List Char) := do
  let (token, rest) ← wholeTag? cs
  if (inFlow && startsWith (· = ',') rest) || atGap rest then return (token, rest) else none

/-- The name of an anchor or an alias, with what must follow it. -/
def anchorName? (cs : List Char) : Option (String × List Char) :=
  let name := cs.takeWhile isWordChar
  let rest := cs.dropWhile isWordChar
  let closes (c : Char) := isBlankOrBreak c || "?:,]\x7d%@\x60".toList.contains c
  if !name.isEmpty && endsOr closes rest then some (String.ofList name, rest) else none

/-- Up to nine digits. -/
def versionNumber? (cs : List Char) : Option (Nat × List Char) :=
  let digits := cs.takeWhile Char.isDigit
  if digits.isEmpty || 9 < digits.length then none
  else some (digits.foldl (fun n c => 10 * n + (c.toNat - '0'.toNat)) 0, cs.dropWhile Char.isDigit)

def dropBlanks (cs : List Char) : List Char := cs.dropWhile isBlank

def directiveValue? (name : List Char) (cs : List Char) : Option (Token × List Char) :=
  if name = ['Y', 'A', 'M', 'L'] then do
    let (major, cs) ← versionNumber? (dropBlanks cs)
    match cs with
    | '.' :: cs =>
      let (minor, cs) ← versionNumber? cs
      return (.version major minor, cs)
    | _ => none
  else if name = ['T', 'A', 'G'] then do
    let (handle, cs) ← takeHandle? (dropBlanks cs)
    if handle ≠ ['!'] && !isClosedHandle handle then none
    if !startsWith isBlank cs then none
    let (stem, cs) ← takeUri? true (dropBlanks cs)
    if stem.isEmpty || !atGap cs then none
    return (.handle (String.ofList handle) stem.untilNull, cs)
  else none

/-- A directive after its percent sign. Nothing but a comment may follow it. -/
def directive? (cs : List Char) : Option (Token × List Char) := do
  let name := cs.takeWhile isWordChar
  let rest := cs.dropWhile isWordChar
  if name.isEmpty || !atGap rest then none
  let (token, rest) ← directiveValue? name rest
  let rest := dropBlanks rest
  let rest := if startsWith (· = '#') rest then rest.dropWhile (!isBreak ·) else rest
  if endsOr isBreak rest then return (token, rest) else none

end PromptTemplate.Yaml
