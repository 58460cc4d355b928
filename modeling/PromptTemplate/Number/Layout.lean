import PromptTemplate.Number.Shortest

/-!
# Written numbers

How the digits of a number are laid out. A layout says which numbers are written positionally and
whether a whole number keeps its point; the rest are written with one leading digit and a signed
exponent.
-/

namespace PromptTemplate.Number

structure Layout where
  tie : Tie
  /-- The power of ten of the leading digit decides. -/
  positional : Int → Bool
  /-- A whole number ends in a point and a zero. -/
  pointed : Bool

def decimalChars (n : Nat) : List Char := Nat.toDigits 10 n

def decimalText (n : Nat) : String := String.ofList (decimalChars n)

def integerText (n : Int) : String :=
  if n < 0 then "-" ++ decimalText n.natAbs else decimalText n.natAbs

def dropZeroEnd (digits : List Char) : List Char :=
  (digits.reverse.dropWhile (· = '0')).reverse

/-- Digits of which the first `whole` stand before the point. -/
def placePoint (pointed : Bool) (digits : List Char) (whole : Int) : List Char :=
  if whole ≤ 0 then '0' :: '.' :: List.replicate (-whole).toNat '0' ++ digits
  else
    let front := digits.take whole.toNat ++ List.replicate (whole.toNat - digits.length) '0'
    match digits.drop whole.toNat with
    | [] => if pointed then front ++ ['.', '0'] else front
    | fraction => front ++ '.' :: fraction

def exponentChars (exponent : Int) : List Char :=
  'e' :: (if exponent < 0 then '-' else '+') :: decimalChars exponent.natAbs

def scientific (digits : List Char) (exponent : Int) : List Char :=
  match digits with
  | [] => []
  | [d] => d :: exponentChars exponent
  | d :: more => d :: '.' :: more ++ exponentChars exponent

def Layout.write (layout : Layout) (b : Binary) : String :=
  let sign := if b.negative then ['-'] else []
  let body :=
    if b.mantissa = 0 then if layout.pointed then ['0', '.', '0'] else ['0']
    else
      let shortest := b.shortest layout.tie
      let digits := decimalChars shortest.coefficient
      let leading := shortest.exponent + digits.length - 1
      if layout.positional leading then
        placePoint layout.pointed (dropZeroEnd digits) (leading + 1)
      else scientific (dropZeroEnd digits) leading
  String.ofList (sign ++ body)

/-- Numbers in a prompt: always positional, and without a point if whole. -/
def promptLayout : Layout := ⟨.up, fun _ => true, false⟩

/-- Numbers in JSON text: positional from `0.00001` up to sixteen whole digits, and always with
a point or an exponent. -/
def jsonLayout : Layout := ⟨.even, fun leading => -5 ≤ leading && leading < 16, true⟩

end PromptTemplate.Number
