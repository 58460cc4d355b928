import PromptTemplate.Json
import PromptTemplate.Number.Layout
import PromptTemplate.Text.Hex

/-!
# JSON text

The compact text of a value: no blanks, fields in the order in which they are given.
-/

namespace PromptTemplate.Json

def escapeChar (c : Char) : List Char :=
  if c = '"' then ['\\', '"']
  else if c = '\\' then ['\\', '\\']
  else if c = '\n' then ['\\', 'n']
  else if c = '\r' then ['\\', 'r']
  else if c = '\t' then ['\\', 't']
  else if c.toNat = 8 then ['\\', 'b']
  else if c.toNat = 12 then ['\\', 'f']
  else if c.toNat < 32 then '\\' :: 'u' :: Text.hexDigits 4 c.toNat
  else [c]

def quote (s : String) : String :=
  String.ofList ('"' :: s.toList.flatMap escapeChar ++ ['"'])

/-- A number that is not finite has no JSON form and is written as null. -/
def floatText (x : Float) : String :=
  match Number.binary? x with
  | some b => Number.jsonLayout.write b
  | none => "null"

def commaSeparated (texts : List String) : String := String.intercalate "," texts

def arrayText (items : List String) : String := "[" ++ commaSeparated items ++ "]"

def fieldText (key : String) (value : String) : String := quote key ++ ":" ++ value

def objectText (fields : List String) : String := "\x7b" ++ commaSeparated fields ++ "\x7d"

mutual

def text : Json → String
  | .null => "null"
  | .bool true => "true"
  | .bool false => "false"
  | .int n => Number.integerText n
  | .float x => floatText x
  | .string s => quote s
  | .array items => arrayText (itemTexts items)
  | .object fields => objectText (fieldTexts fields)

def itemTexts : List Json → List String
  | [] => []
  | item :: rest => text item :: itemTexts rest

def fieldTexts : List (String × Json) → List String
  | [] => []
  | (key, value) :: rest => fieldText key (text value) :: fieldTexts rest

end

end PromptTemplate.Json
