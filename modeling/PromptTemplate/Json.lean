import PromptTemplate.Dict

/-!
# JSON values

The fields of an object stand in ascending order of their keys, each key once. Whole numbers and
floats are told apart.
-/

namespace PromptTemplate

inductive Json where
  | null
  | bool (value : Bool)
  | int (value : Int)
  | float (value : Float)
  | string (value : String)
  | array (items : List Json)
  | object (fields : List (String × Json))

namespace Json

instance : Inhabited Json := ⟨null⟩

/-- Fields with one more among them, in its place by key; an equal key gives way. -/
def putSorted (key : String) (value : Json) : List (String × Json) → List (String × Json)
  | [] => [(key, value)]
  | (k, v) :: rest =>
    if key < k then (key, value) :: (k, v) :: rest
    else if key = k then (key, value) :: rest
    else (k, v) :: putSorted key value rest

/-- Fields in ascending order of their keys; the last one of a key stays. -/
def sortFields (fields : List (String × Json)) : List (String × Json) :=
  fields.foldl (fun sorted field => putSorted field.1 field.2 sorted) []

def emptyObject : Json := .object []

def isObject : Json → Bool
  | .object _ => true
  | _ => false

end Json

end PromptTemplate
