/-!
# The parts of a float

A finite float is a sign, a mantissa and a power of two. In the other direction a quotient of
natural numbers goes to the nearest float, a half going to the even mantissa, and beyond the largest
one to infinity.
-/

namespace PromptTemplate.Number

abbrev twoTo (exponent : Nat) : Nat := Nat.pow 2 exponent

abbrev tenTo (exponent : Nat) : Nat := Nat.pow 10 exponent

/-- Stands for `± mantissa · 2 ^ exponent`. -/
structure Binary where
  negative : Bool
  mantissa : Nat
  exponent : Int
deriving DecidableEq

def signBit : Nat := twoTo 63

def infinityBits : Nat := 2047 * twoTo 52

def ofBitPattern (negative : Bool) (magnitude : Nat) : Float :=
  Float.ofBits (UInt64.ofNat (if negative then magnitude + signBit else magnitude))

def infinity (negative : Bool) : Float := ofBitPattern negative infinityBits

def notANumber : Float := ofBitPattern false (infinityBits + twoTo 51)

/-- Neither infinite nor not a number. -/
def binary? (x : Float) : Option Binary :=
  let bits := x.toBits.toNat
  let biased : Nat := bits / twoTo 52 % 2048
  let fraction := bits % twoTo 52
  let negative := decide (signBit ≤ bits)
  if biased = 2047 then none
  else if biased = 0 then some ⟨negative, fraction, -1074⟩
  else some ⟨negative, fraction + twoTo 52, (biased : Int) - 1075⟩

/-- Numerator and denominator of `mantissa · 2 ^ exponent`. -/
def Binary.ratio (b : Binary) : Nat × Nat :=
  if 0 ≤ b.exponent then (b.mantissa * twoTo b.exponent.toNat, 1)
  else (b.mantissa, twoTo (-b.exponent).toNat)

/-- The integer a float stands for, if it has no fraction. -/
def Binary.toInt? (b : Binary) : Option Int :=
  let (n, d) := b.ratio
  if n % d = 0 then some (if b.negative then -(n / d : Nat) else (n / d : Nat)) else none

def integer? (x : Float) : Option Int := (binary? x).bind Binary.toInt?

/-- The quotient to the nearest whole number, a half to the even one. -/
def divideToEven (n d : Nat) : Nat :=
  let q := n / d
  let r := n % d
  if 2 * r < d then q else if d < 2 * r then q + 1 else if q % 2 = 0 then q else q + 1

/-- The float nearest to `± n / d`, for a positive `d`. -/
def nearestRatio (negative : Bool) (n d : Nat) : Float :=
  if n = 0 then ofBitPattern negative 0
  else
    let low := max ((n.log2 : Int) - d.log2 - 53) (-1074)
    let scaled := n * twoTo (-low).toNat
    let unit := d * twoTo low.toNat
    let (exponent, unit) := if unit * twoTo 53 ≤ scaled then (low + 1, 2 * unit) else (low, unit)
    let bits := (exponent + 1074).toNat * twoTo 52 + divideToEven scaled unit
    ofBitPattern negative (min bits infinityBits)

/-- The float nearest to `± coefficient · 10 ^ exponent`. Exponents far outside the range of
floats are settled by the number of digits alone. -/
def nearestDecimal (negative : Bool) (coefficient : Nat) (exponent : Int) : Float :=
  let digits : Int := (Nat.toDigits 10 coefficient).length
  if coefficient = 0 then ofBitPattern negative 0
  else if 400 < digits + exponent then infinity negative
  else if digits + exponent < -400 then ofBitPattern negative 0
  else if 0 ≤ exponent then nearestRatio negative (coefficient * tenTo exponent.toNat) 1
  else nearestRatio negative coefficient (tenTo (-exponent).toNat)

def ofInt (n : Int) : Float := nearestRatio (decide (n < 0)) n.natAbs 1

/-- What is left of `x` after taking away `y` a whole number of times; it has the sign of `x`. -/
def remainder (x y : Float) : Float :=
  match binary? x, binary? y with
  | some a, some b =>
    if b.mantissa = 0 then notANumber
    else
      let exponent := min a.exponent b.exponent
      let n := a.mantissa * twoTo (a.exponent - exponent).toNat
      let d := b.mantissa * twoTo (b.exponent - exponent).toNat
      let rest : Binary := ⟨a.negative, n % d, exponent⟩
      nearestRatio rest.negative rest.ratio.1 rest.ratio.2
  | some _, none => if y.isNaN then notANumber else x
  | none, _ => notANumber

end PromptTemplate.Number
