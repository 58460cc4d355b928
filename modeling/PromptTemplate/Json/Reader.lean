import PromptTemplate.Json
import PromptTemplate.Number.Scaled
import PromptTemplate.Text.Hex

/-!
# Reading JSON

A strict reader: nothing but one value and blanks, no number beyond the range of floats, no lone
half of a surrogate pair, no control character inside a string, and no more than a given number of
containers inside one another. Of fields with one key the last one stays. Every reader takes a value
from the front of a text and hands on the text after it.
-/

namespace PromptTemplate.Json

def isSpace (c : Char) : Bool := c = ' ' || c = '\n' || c = '\t' || c = '\r'

def skipSpace (cs : List Char) : List Char := cs.dropWhile isSpace

def afterWord? : (word : List Char) → List Char → Option (List Char)
  | [], cs => some cs
  | w :: word, c :: cs => if w = c then afterWord? word cs else none
  | _ :: _, [] => none

/-- The character written by the code unit `high`, and by a second unit if `high` is the first half
of a pair. -/
def pairedChar? (high : Nat) (cs : List Char) : Option (Char × List Char) :=
  if 0xD800 ≤ high ∧ high < 0xDC00 then do
    let cs ← afterWord? ['\\', 'u'] cs
    let (low, cs) ← Text.takeHex? 4 cs
    if 0xDC00 ≤ low ∧ low < 0xE000 then
      let c ← Text.charOfCode? (0x10000 + (high - 0xD800) * 0x400 + (low - 0xDC00))
      return (c, cs)
    else none
  else do
    let c ← Text.charOfCode? high
    return (c, cs)

def escaped? : List Char → Option (Char × List Char)
  | '"' :: cs => some ('"', cs)
  | '\\' :: cs => some ('\\', cs)
  | '/' :: cs => some ('/', cs)
  | 'b' :: cs => some ('\x08', cs)
  | 'f' :: cs => some ('\x0c', cs)
  | 'n' :: cs => some ('\n', cs)
  | 'r' :: cs => some ('\r', cs)
  | 't' :: cs => some ('\t', cs)
  | 'u' :: cs => do
    let (unit, cs) ← Text.takeHex? 4 cs
    pairedChar? unit cs
  | _ => none

/-- The rest of a string after its opening quote. Each step takes at least one character, so a
budget above the length of the text is never used up. -/
def stringRest? : (budget : Nat) → List Char → Option (List Char × List Char)
  | 0, _ => none
  | _ + 1, [] => none
  | budget + 1, c :: cs =>
    if c = '"' then some ([], cs)
    else if c = '\\' then do
      let (c, cs) ← escaped? cs
      let (more, cs) ← stringRest? budget cs
      return (c :: more, cs)
    else if c.toNat < 32 then none
    else do
      let (more, cs) ← stringRest? budget cs
      return (c :: more, cs)

def string? (cs : List Char) : Option (String × List Char) := do
  let (chars, cs) ← stringRest? (cs.length + 1) cs
  return (String.ofList chars, cs)

/-- Whole digits: a lone zero, or no zero in front. -/
def wholeDigits? (cs : List Char) : Option (List Char × List Char) :=
  match Number.takeDigits cs with
  | ([], _) => none
  | (['0'], rest) => some (['0'], rest)
  | ('0' :: _, _) => none
  | found => some found

/-- A whole number that fits into a word stays whole; minus zero, having a sign, does not. -/
def wholeNumber? (negative : Bool) (n : Nat) : Option Json :=
  if negative then
    if 0 < n ∧ n ≤ Number.twoTo 63 then some (.int (-(n : Int))) else none
  else if n < Number.wordLimit then some (.int n)
  else none

def number? (negative : Bool) (cs : List Char) : Option (Json × List Char) := do
  let (whole, cs) ← wholeDigits? cs
  let (fraction, afterFraction) := Number.takeFraction cs
  let (exponent, rest) := Number.takeExponent afterFraction
  let plain := rest.length = cs.length
  match if plain then wholeNumber? negative (Number.digitsToNat whole) else none with
  | some n => return (n, rest)
  | none =>
    let x ← (Number.Numeral.mk whole fraction exponent).scaled? negative
    return (.float x, rest)

/-- The items of an array after its opening bracket and blanks, each read by `item`. -/
def items? (item : List Char → Option (Json × List Char)) :
    (budget : Nat) → List Char → Option (List Json × List Char)
  | 0, _ => none
  | budget + 1, cs => do
    let (first, cs) ← item (skipSpace cs)
    match skipSpace cs with
    | ',' :: cs =>
      let (more, cs) ← items? item budget cs
      return (first :: more, cs)
    | ']' :: cs => return ([first], cs)
    | _ => none

/-- The fields of an object from the first key on, in the order in which they are written. -/
def fields? (item : List Char → Option (Json × List Char)) :
    (budget : Nat) → List Char → Option (List (String × Json) × List Char)
  | 0, _ => none
  | budget + 1, cs => do
    let cs ← afterWord? ['"'] (skipSpace cs)
    let (key, cs) ← string? cs
    let cs ← afterWord? [':'] (skipSpace cs)
    let (first, cs) ← item (skipSpace cs)
    match skipSpace cs with
    | ',' :: cs =>
      let (more, cs) ← fields? item budget cs
      return ((key, first) :: more, cs)
    | '}' :: cs => return ([(key, first)], cs)
    | _ => none

/-- Null, a truth value, a number or a string. -/
def scalar? (cs : List Char) : Option (Json × List Char) :=
  match cs with
  | 'n' :: rest => (afterWord? ['u', 'l', 'l'] rest).map (.null, ·)
  | 't' :: rest => (afterWord? ['r', 'u', 'e'] rest).map (.bool true, ·)
  | 'f' :: rest => (afterWord? ['a', 'l', 's', 'e'] rest).map (.bool false, ·)
  | '"' :: rest => (string? rest).map fun (s, rest) => (.string s, rest)
  | '-' :: rest => number? true rest
  | _ => number? false cs

/-- A value in front, with at most `depth` containers inside one another. -/
def value? : (depth : Nat) → List Char → Option (Json × List Char)
  | depth, '[' :: cs =>
    match depth with
    | 0 => none
    | depth + 1 =>
      match skipSpace cs with
      | ']' :: cs => some (.array [], cs)
      | cs => (items? (value? depth) (cs.length + 1) cs).map fun (items, cs) => (.array items, cs)
  | depth, '{' :: cs =>
    match depth with
    | 0 => none
    | depth + 1 =>
      match skipSpace cs with
      | '}' :: cs => some (.object [], cs)
      | cs => (fields? (value? depth) (cs.length + 1) cs).map fun (fields, cs) =>
        (.object (sortFields fields), cs)
  | _, cs => scalar? cs

/-- How many containers may stand inside one another. -/
def depthLimit : Nat := 127

def read? (s : String) : Option Json := do
  let (value, rest) ← value? depthLimit (skipSpace s.toList)
  if skipSpace rest = [] then some value else none

end PromptTemplate.Json
