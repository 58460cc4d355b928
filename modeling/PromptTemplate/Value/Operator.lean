import PromptTemplate.Expr
import PromptTemplate.Value.Equality
import PromptTemplate.Value.Property

/-!
# The meaning of operators

Operators on values. Only plain ones apply to both values; three of them may stop at the left one,
and some have no meaning at all.
-/

namespace PromptTemplate

namespace Value

/-- Null, truth values and numbers are added as numbers; with anything else it is texts that are put
together. -/
def addsAsNumber : Value → Bool
  | null => true
  | bool _ => true
  | number _ => true
  | _ => false

def add (a b : Value) : Value :=
  if a.addsAsNumber && b.addsAsNumber then number (a.toNumber + b.toNumber)
  else string (a.render ++ b.render)

def arithmetic (f : Float → Float → Float) (a b : Value) : Value :=
  number (f a.toNumber b.toNumber)

/-- Two texts are compared by their characters, everything else by number. -/
def compareWith (texts : String → String → Bool) (numbers : Float → Float → Bool)
    (a b : Value) : Value :=
  match a, b with
  | string s, string t => bool (texts s t)
  | a, b => bool (numbers a.toNumber b.toNumber)

end Value

namespace BinaryOp

inductive Meaning where
  | plain (apply : Value → Value → Value)
  /-- The left value stands if it satisfies the condition; the right operand is not looked at
  then. -/
  | stopsAt (condition : Value → Bool)
  | unsupported

def meaning : BinaryOp → Meaning
  | add => .plain Value.add
  | subtract => .plain (Value.arithmetic (· - ·))
  | multiply => .plain (Value.arithmetic (· * ·))
  | divide => .plain (Value.arithmetic (· / ·))
  | remainder => .plain (Value.arithmetic Number.remainder)
  | power => .plain (Value.arithmetic Float.pow)
  | equal => .plain fun a b => .bool (a.looseEq b)
  | notEqual => .plain fun a b => .bool (!a.looseEq b)
  | identical => .plain fun a b => .bool (a.strictEq b)
  | notIdentical => .plain fun a b => .bool (!a.strictEq b)
  | less => .plain (Value.compareWith (· < ·) (· < ·))
  | atMost => .plain (Value.compareWith (fun s t => !(t < s)) (· ≤ ·))
  | greater => .plain (Value.compareWith (fun s t => t < s) (fun x y => y < x))
  | atLeast => .plain (Value.compareWith (fun s t => !(s < t)) (fun x y => y ≤ x))
  | and => .stopsAt fun a => !a.isTruthy
  | or => .stopsAt Value.isTruthy
  | nullish => .stopsAt fun a => !a.isNullish
  | bitAnd => .unsupported
  | bitOr => .unsupported
  | bitXor => .unsupported
  | shiftLeft => .unsupported
  | shiftRight => .unsupported
  | unsignedShiftRight => .unsupported
  | isIn => .unsupported
  | instanceOf => .unsupported

end BinaryOp

/-- The type of what is in a slot, for messages. -/
def slotTypeName : Option Value → String
  | some value => value.typeName
  | none => "undefined"

namespace AssignOp

def onNumber (op : AssignOp) (f : Float → Float → Float) (current : Option Value) (value : Value) :
    Except Cause Value :=
  match current with
  | some (.number x) => .ok (.number (f x value.toNumber))
  | _ => .error (.invalidUpdate op.text (slotTypeName current))

/-- The new value of a slot. Only plain assignment fills an empty slot, and only addition works on
anything but a number. -/
def combine (op : AssignOp) (current : Option Value) (value : Value) : Except Cause Value :=
  match op with
  | assign => .ok value
  | add =>
    match current with
    | some present => .ok (present.add value)
    | none => .error (.invalidUpdate op.text (slotTypeName none))
  | subtract => op.onNumber (· - ·) current value
  | multiply => op.onNumber (· * ·) current value
  | divide => op.onNumber (· / ·) current value
  | remainder => op.onNumber Number.remainder current value

/-- The change of an assignment, whose value is the one stored. -/
def change (op : AssignOp) (value : Value) : Value.Change := fun current => do
  let stored ← op.combine current value
  return (stored, stored)

end AssignOp

namespace UpdateOp

def step : UpdateOp → Float → Float
  | increment, x => x + 1
  | decrement, x => x - 1

/-- The change of an update, whose value is the new number or the old one. -/
def change (op : UpdateOp) (side : UpdateSide) : Value.Change := fun current =>
  match current with
  | some (.number old) =>
    let new := op.step old
    .ok (.number new, .number (if side = .before then new else old))
  | _ => .error (.invalidUpdate op.text (slotTypeName current))

end UpdateOp

end PromptTemplate
