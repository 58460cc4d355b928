import PromptTemplate.Json

/-!
# Values

What expressions evaluate to. The fields of an object keep the order in which they were put, each
key once. A function belongs to the host; the program knows it by a handle alone.
-/

namespace PromptTemplate

/-- Names a function of the host. Functions are equal when their handles are. -/
structure Handle where
  id : Nat
deriving DecidableEq

inductive Value where
  | null
  | bool (value : Bool)
  | number (value : Float)
  | string (value : String)
  | array (items : List Value)
  | object (fields : List (String × Value))
  | function (handle : Handle)

namespace Value

instance : Inhabited Value := ⟨null⟩

def typeName : Value → String
  | null => "null"
  | bool _ => "boolean"
  | number _ => "number"
  | string _ => "string"
  | array _ => "array"
  | object _ => "object"
  | function _ => "function"

/-- The answer of `typeof`, to which nulls and arrays are objects. -/
def typeOf : Value → String
  | null => "object"
  | array _ => "object"
  | value => value.typeName

def isTruthy : Value → Bool
  | null => false
  | bool b => b
  | number x => x != 0 && !x.isNaN
  | string s => !s.isEmpty
  | array _ => true
  | object _ => true
  | function _ => true

def isNullish : Value → Bool
  | null => true
  | _ => false

end Value

end PromptTemplate
