import PromptTemplate.Number.Layout
import PromptTemplate.Number.Numeral
import PromptTemplate.Text.Blank
import PromptTemplate.Value

/-!
# Values as numbers, and numbers as text
-/

namespace PromptTemplate.Value

/-- The number that a text is read as: zero if it is blank, and not a number if it is no numeral. -/
def textToNumber (s : String) : Float :=
  match Text.trimChars s.toList with
  | [] => 0
  | cs => (Number.read? cs).getD Number.notANumber

def toNumber : Value → Float
  | null => 0
  | bool false => 0
  | bool true => 1
  | number x => x
  | string s => textToNumber s
  | array _ => Number.notANumber
  | object _ => Number.notANumber
  | function _ => Number.notANumber

/-- A number in a prompt: whole numbers below `10 ^ 21` in full, others by their shortest digits. -/
def numberText (x : Float) : String :=
  match Number.binary? x with
  | none => if x.isNaN then "NaN" else if x < 0 then "-Infinity" else "Infinity"
  | some b =>
    match b.toInt? with
    | some n =>
      if n.natAbs < Number.tenTo 21 then Number.integerText n else Number.promptLayout.write b
    | none => Number.promptLayout.write b

end PromptTemplate.Value
