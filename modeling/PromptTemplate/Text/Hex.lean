/-!
# Hexadecimal digits
-/

namespace PromptTemplate.Text

def hexValue? (c : Char) : Option Nat :=
  if c.isDigit then some (c.toNat - '0'.toNat)
  else if 'a' ≤ c ∧ c ≤ 'f' then some (c.toNat - 'a'.toNat + 10)
  else if 'A' ≤ c ∧ c ≤ 'F' then some (c.toNat - 'A'.toNat + 10)
  else none

/-- Exactly `count` digits in front, as a number, and what follows them. -/
def takeHex? : (count : Nat) → List Char → Option (Nat × List Char)
  | count, cs => go count 0 cs
where
  go : Nat → Nat → List Char → Option (Nat × List Char)
    | 0, n, cs => some (n, cs)
    | _ + 1, _, [] => none
    | more + 1, n, c :: cs =>
      match hexValue? c with
      | some digit => go more (16 * n + digit) cs
      | none => none

/-- The character with a code point, unless that is a surrogate or too large. -/
def charOfCode? (code : Nat) : Option Char :=
  if code.isValidChar then some (Char.ofNat code) else none

/-- `width` digits, lower case, the last ones of `n`. -/
def hexDigits : (width : Nat) → (n : Nat) → List Char
  | 0, _ => []
  | width + 1, n => hexDigits width (n / 16) ++ [Nat.digitChar (n % 16)]

end PromptTemplate.Text
