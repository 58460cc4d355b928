import PromptTemplate.Number.Binary

/-!
# Shortest digits

The fewest decimal digits that name one float and no other, and of those the ones nearest to it.
For one digit, two digits and so on the two neighbours of the float on that decimal grid are tried
against the interval of reals that round to it; the first grid with a hit wins.
-/

namespace PromptTemplate.Number

/-- Which of two candidates at the same distance is taken. -/
inductive Tie where
  | up
  | even
deriving DecidableEq

/-- Stands for `coefficient · 10 ^ exponent`. -/
structure Digits where
  coefficient : Nat
  exponent : Int
deriving DecidableEq

/-- The exponent `e` with `10 ^ e ≤ n / d < 10 ^ (e + 1)`, for positive `n` and `d`. -/
def magnitude (n d : Nat) : Int :=
  if d ≤ n then (Nat.toDigits 10 (n / d)).length - 1
  else
    let places := (Nat.toDigits 10 (d / n)).length
    if d ≤ n * tenTo (places - 1) then -((places : Int) - 1) else -(places : Int)

/-- The reals that round to a float, in quarters of a unit in its last place. -/
structure Rounding where
  low : Nat
  high : Nat
  closed : Bool

/-- Below a power of two the gap is half as wide. -/
def Binary.rounding (b : Binary) : Rounding :=
  let narrow := b.mantissa = twoTo 52 ∧ -1074 < b.exponent
  ⟨if narrow then 4 * b.mantissa - 1 else 4 * b.mantissa - 2, 4 * b.mantissa + 2,
    b.mantissa % 2 = 0⟩

def Rounding.contains (r : Rounding) (n d : Nat) : Bool :=
  if r.closed then r.low * d ≤ n && n ≤ r.high * d else r.low * d < n && n < r.high * d

/-- The better neighbour of a float on the grid of multiples of `10 ^ exponent`, if one of the two
rounds to it. -/
def Binary.onGrid? (b : Binary) (tie : Tie) (exponent : Int) : Option Nat :=
  -- quarters of the last place and steps of the grid, over one denominator
  let two := b.exponent - 2
  let quarter := twoTo two.toNat * tenTo (-exponent).toNat
  let step := tenTo exponent.toNat * twoTo (-two).toNat
  let value := 4 * b.mantissa * quarter
  let below := value / step
  let fits (k : Nat) := b.rounding.contains (k * step) quarter
  let down := value - below * step
  let above := (below + 1) * step - value
  match fits below, fits (below + 1) with
  | true, true =>
    if down < above then some below
    else if above < down then some (below + 1)
    else match tie with
      | .up => some (below + 1)
      | .even => some (if below % 2 = 0 then below else below + 1)
  | true, false => some below
  | false, true => some (below + 1)
  | false, false => none

/-- Tries the grids from the coarsest on; seventeen digits always name a float. -/
def Binary.shortestFrom (b : Binary) (tie : Tie) : Nat → Int → Digits
  | 0, exponent => ⟨0, exponent⟩
  | more + 1, exponent =>
    match b.onGrid? tie exponent with
    | some coefficient => ⟨coefficient, exponent⟩
    | none => b.shortestFrom tie more (exponent - 1)

/-- The digits of a float other than zero. -/
def Binary.shortest (b : Binary) (tie : Tie) : Digits :=
  b.shortestFrom tie 17 (magnitude b.ratio.1 b.ratio.2)

end PromptTemplate.Number
