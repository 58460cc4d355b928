import PromptTemplate.Value.Number

/-!
# The two equalities

Strict equality compares arrays item by item and objects as maps, whatever the order of their
fields. Loose equality compares numbers, texts and truth values of different types by what they
count for.
-/

namespace PromptTemplate.Value

mutual

def strictEq : Value → Value → Bool
  | null, null => true
  | bool a, bool b => a == b
  | number x, number y => x == y
  | string s, string t => s == t
  | array xs, array ys => itemsEq xs ys
  | object xs, object ys => xs.length == ys.length && fieldsIn xs ys
  | function f, function g => f == g
  | _, _ => false

def itemsEq : List Value → List Value → Bool
  | [], [] => true
  | x :: xs, y :: ys => strictEq x y && itemsEq xs ys
  | _, _ => false

/-- Every field of the first object is one of the second. -/
def fieldsIn : List (String × Value) → List (String × Value) → Bool
  | [], _ => true
  | (key, x) :: rest, ys =>
    (match Dict.get? ys key with
      | some y => strictEq x y
      | none => false) && fieldsIn rest ys

end

/-- The types whose values have a numeric meaning of their own. -/
def isNumeric : Value → Bool
  | number _ => true
  | bool _ => true
  | _ => false

def isString : Value → Bool
  | string _ => true
  | _ => false

def looseEq (a b : Value) : Bool :=
  if a.isNullish && b.isNullish then true
  else if a.isNullish || b.isNullish then false
  else if (a.isNumeric && (b.isNumeric || b.isString)) || (a.isString && b.isNumeric) then
    a.toNumber == b.toNumber
  else strictEq a b

end PromptTemplate.Value
