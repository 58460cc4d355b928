import PromptTemplate.Json.Printer
import PromptTemplate.Value.Number

/-!
# Values as JSON and as text

Functions and numbers that are not finite have no JSON form and become null. A whole number below
`2 ^ 53` becomes an integer. The text of an array or an object is its JSON text with the fields in
the order of the object, while the JSON value has them in ascending order.
-/

namespace PromptTemplate.Value

def numberToJson (x : Float) : Json :=
  match Number.binary? x with
  | none => .null
  | some b =>
    match b.toInt? with
    | some n => if n.natAbs < Number.twoTo 53 then .int n else .float x
    | none => .float x

mutual

def toJson : Value → Json
  | null => .null
  | bool b => .bool b
  | number x => numberToJson x
  | string s => .string s
  | array items => .array (itemsToJson items)
  | object fields => .object (fieldsToJson fields)
  | function _ => .null

def itemsToJson : List Value → List Json
  | [] => []
  | item :: rest => toJson item :: itemsToJson rest

def fieldsToJson : List (String × Value) → List (String × Json)
  | [] => []
  | (key, value) :: rest => Json.putSorted key (toJson value) (fieldsToJson rest)

end

mutual

/-- The JSON text of a value, fields in their own order. -/
def serialize : Value → String
  | null => "null"
  | bool true => "true"
  | bool false => "false"
  | number x => (numberToJson x).text
  | string s => Json.quote s
  | array items => Json.arrayText (serializeItems items)
  | object fields => Json.objectText (serializeFields fields)
  | function _ => "null"

def serializeItems : List Value → List String
  | [] => []
  | item :: rest => serialize item :: serializeItems rest

def serializeFields : List (String × Value) → List String
  | [] => []
  | (key, value) :: rest => Json.fieldText key (serialize value) :: serializeFields rest

end

/-- The text of a value inside a prompt. -/
def render : Value → String
  | null => ""
  | bool true => "true"
  | bool false => "false"
  | number x => numberText x
  | string s => s
  | array items => serialize (array items)
  | object fields => serialize (object fields)
  | function _ => "[function]"

mutual

def ofJson : Json → Value
  | .null => null
  | .bool b => bool b
  | .int n => number (Number.ofInt n)
  | .float x => number x
  | .string s => string s
  | .array items => array (itemsOfJson items)
  | .object fields => object (fieldsOfJson fields)

def itemsOfJson : List Json → List Value
  | [] => []
  | item :: rest => ofJson item :: itemsOfJson rest

def fieldsOfJson : List (String × Json) → List (String × Value)
  | [] => []
  | (key, value) :: rest => (key, ofJson value) :: fieldsOfJson rest

end

end PromptTemplate.Value
