import PromptTemplate.Number.Numeral

/-!
# Scaled numerals

A quick reading of numerals: the leading digits that fit into a word of sixty-four bits become a
float, which is then multiplied or divided by a power of ten. It is exact wherever the digits and
the power are floats themselves, and may be off by the last place otherwise.
-/

namespace PromptTemplate.Number

def wordLimit : Nat := twoTo 64

/-- Digits appended to a number until the next one would pass the limit of a word, and the digits
that are left. -/
def appendDigits (n : Nat) : List Char → Nat × List Char
  | [] => (n, [])
  | c :: cs =>
    let longer := 10 * n + (c.toNat - '0'.toNat)
    if wordLimit ≤ longer then (n, c :: cs) else appendDigits longer cs

def powerOfTen (exponent : Nat) : Float := nearestDecimal false 1 exponent

/-- Divides by the largest power of ten again and again, as long as anything is left to divide. -/
def shrink (x : Float) : (times : Nat) → (last : Nat) → Float
  | 0, last => x / powerOfTen last
  | times + 1, last => if x == 0 then x else shrink (x / powerOfTen 308) times last

/-- A float times a power of ten; none if the power or the product is too large. -/
def scale? (x : Float) (exponent : Int) : Option Float :=
  if 308 < exponent then if x == 0 then some x else none
  else if 0 ≤ exponent then
    let product := x * powerOfTen exponent.toNat
    if product.isInf then none else some product
  else
    let times := (exponent.natAbs - 1) / 308
    some (shrink x times (exponent.natAbs - 308 * times))

/-- The scaled reading of a numeral. Whole digits that do not fit count for their places only. -/
def Numeral.scaled? (n : Numeral) (negative : Bool) : Option Float :=
  let (front, leftover) := appendDigits 0 n.whole
  let (coefficient, unread) := appendDigits front n.fraction
  let places := n.fraction.length - unread.length
  let magnitude := scale? (nearestRatio false coefficient 1)
    (n.exponent + leftover.length - places)
  magnitude.map fun x => if negative then -x else x

end PromptTemplate.Number
