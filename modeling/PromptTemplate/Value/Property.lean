import PromptTemplate.Cause
import PromptTemplate.Value.Render

/-!
# Properties

Reading a property of a value, and changing one slot deep inside a value. Keys of objects are
compared as text, places in arrays and texts as numbers.
-/

namespace PromptTemplate.Value

/-- A natural number in digits, after a plus sign if one likes. -/
def textToIndex? (s : String) : Option Nat :=
  let digits : List Char → Option Nat := fun cs =>
    if cs ≠ [] ∧ cs.all Char.isDigit then some (Number.digitsToNat cs) else none
  match s.toList with
  | '+' :: rest => digits rest
  | cs => digits cs

def index? : Value → Option Nat
  | number x =>
    match Number.integer? x with
    | some n => if 0 ≤ n then some n.toNat else none
    | none => none
  | string s => textToIndex? s
  | _ => none

def isLengthKey : Value → Bool
  | string s => s == "length"
  | _ => false

def countToNumber (n : Nat) : Value := number (Number.ofInt n)

def property? (target key : Value) : Option Value :=
  match target with
  | object fields => Dict.get? fields key.render
  | array items =>
    if key.isLengthKey then some (countToNumber items.length)
    else key.index?.bind (items[·]?)
  | string s =>
    if key.isLengthKey then some (countToNumber s.toList.length)
    else (key.index?.bind (s.toList[·]?)).map fun c => string (String.singleton c)
  | _ => none

def child? (container key : Value) : Option Value :=
  match container with
  | object fields => Dict.get? fields key.render
  | array items => key.index?.bind (items[·]?)
  | _ => none

/-- The container with another value where `key` leads. -/
def setChild (container key child : Value) : Value :=
  match container with
  | object fields => object (Dict.put fields key.render child)
  | array items =>
    match key.index? with
    | some i => array (items.set i child)
    | none => container
  | _ => container

/-- What to store in a slot, given what is there, and the value of the whole expression. -/
abbrev Change := Option Value → Except Cause (Value × Value)

/-- Changes one slot of a container. An object takes any key; an array may have an item replaced or
one appended, but never gets a hole. -/
def changeSlot (change : Change) (container key : Value) : Except Cause (Value × Value) :=
  match container with
  | object fields => do
    let (stored, result) ← change (Dict.get? fields key.render)
    return (object (Dict.put fields key.render stored), result)
  | array items =>
    match key.index? with
    | some i =>
      if i ≤ items.length then do
        let (stored, result) ← change items[i]?
        return (array (if i < items.length then items.set i stored else items ++ [stored]), result)
      else .error .invalidAssignment
    | none => .error .invalidAssignment
  | _ => .error .invalidAssignment

def changeAt (change : Change) : (path : List Value) → Value → Except Cause (Value × Value)
  | [], value => change (some value)
  | [key], value => changeSlot change value key
  | key :: path, value =>
    match child? value key with
    | none => .error (.noSuchProperty key.render)
    | some child => do
      let (changed, result) ← changeAt change path child
      return (setChild value key changed, result)

end PromptTemplate.Value
