import PromptTemplate.Number.Binary

/-!
# Numerals

Reading of decimal numerals, each to the float nearest to what it says.
-/

namespace PromptTemplate.Number

/-- Digits before and after the point, and a power of ten. -/
structure Numeral where
  whole : List Char
  fraction : List Char
  exponent : Int

def digitsToNat (digits : List Char) : Nat :=
  digits.foldl (fun n c => 10 * n + (c.toNat - '0'.toNat)) 0

def Numeral.toFloat (n : Numeral) (negative : Bool) : Float :=
  nearestDecimal negative (digitsToNat (n.whole ++ n.fraction))
    (n.exponent - n.fraction.length)

def takeDigits (cs : List Char) : List Char × List Char :=
  (cs.takeWhile Char.isDigit, cs.dropWhile Char.isDigit)

def takeSign : List Char → Bool × List Char
  | '-' :: rest => (true, rest)
  | '+' :: rest => (false, rest)
  | cs => (false, cs)

/-- An exponent in front. A mark without digits after it is not one and is left where it is. -/
def takeExponent (cs : List Char) : Int × List Char :=
  match cs with
  | c :: rest =>
    if c = 'e' ∨ c = 'E' then
      let (negative, rest) := takeSign rest
      match takeDigits rest with
      | ([], _) => (0, cs)
      | (digits, after) =>
        (if negative then -(digitsToNat digits : Int) else (digitsToNat digits : Int), after)
    else (0, cs)
  | [] => (0, [])

/-- A fraction in front: a point with at least one digit after it. -/
def takeFraction (cs : List Char) : List Char × List Char :=
  match cs with
  | '.' :: rest =>
    match takeDigits rest with
    | ([], _) => ([], cs)
    | found => found
  | _ => ([], cs)

/-- The longest numeral in front, for a text that starts with a digit or with a point and
a digit. -/
def takeNumeral (cs : List Char) : Numeral × List Char :=
  let (whole, rest) := takeDigits cs
  let (fraction, rest) := takeFraction rest
  let (exponent, rest) := takeExponent rest
  (⟨whole, fraction, exponent⟩, rest)

/-- A whole text as a numeral without a sign; digits may be missing on one side of the point. -/
def numeral? (cs : List Char) : Option Numeral :=
  let (whole, rest) := takeDigits cs
  let (fraction, rest) :=
    match rest with
    | '.' :: rest => takeDigits rest
    | _ => ([], rest)
  let (exponent, rest) := takeExponent rest
  if rest = [] ∧ (whole ≠ [] ∨ fraction ≠ []) then some ⟨whole, fraction, exponent⟩ else none

/-- A whole text as a number: a numeral or a word for infinity or for no number, in any case, after
an optional sign. -/
def read? (cs : List Char) : Option Float :=
  let (negative, rest) := takeSign cs
  let word := String.ofList (rest.map Char.toLower)
  if word = "inf" ∨ word = "infinity" then some (infinity negative)
  else if word = "nan" then some notANumber
  else (numeral? rest).map (·.toFloat negative)

end PromptTemplate.Number
