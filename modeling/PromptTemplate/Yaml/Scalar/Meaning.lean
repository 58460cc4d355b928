import PromptTemplate.Json
import PromptTemplate.Number.Numeral
import PromptTemplate.Text.Hex
import PromptTemplate.Yaml.Tag

/-!
# What plain scalars mean

Null, truth values, integers in four bases and floats; everything else is text. An integer that
fits into 128 bits but not into 64 has no JSON form.
-/

namespace PromptTemplate.Yaml

def isNullWord (s : String) : Bool := s = "null" || s = "Null" || s = "NULL" || s = "~"

def bool? (s : String) : Option Bool :=
  if s = "true" ∨ s = "True" ∨ s = "TRUE" then some true
  else if s = "false" ∨ s = "False" ∨ s = "FALSE" then some false
  else none

def digits? (base : Nat) : List Char → Option Nat
  | [] => none
  | cs => cs.foldl (fun n c => do
      let n ← n
      let digit ← Text.hexValue? c
      if digit < base then some (base * n + digit) else none) (some 0)

/-- A letter after a zero tells the base. -/
def based? : List Char → Option Nat
  | '0' :: 'x' :: cs => digits? 16 cs
  | '0' :: 'o' :: cs => digits? 8 cs
  | '0' :: 'b' :: cs => digits? 2 cs
  | _ => none

def isSign (c : Char) : Bool := c = '+' || c = '-'

def withoutSign : List Char → List Char
  | c :: cs => if isSign c then cs else c :: cs
  | [] => []

/-- Digits that start with a zero but are not zero are text, not a number. -/
def hasLeadingZero (cs : List Char) : Bool :=
  match withoutSign cs with
  | '0' :: c :: more => (c :: more).all Char.isDigit
  | _ => false

def natural? (cs : List Char) : Option Nat :=
  let cs' := match cs with
    | '+' :: rest => rest
    | _ => cs
  match based? cs' with
  | some n => some n
  | none => if hasLeadingZero cs then none else digits? 10 cs'

/-- An integer with a minus sign, given the size of what follows it. -/
def negated? (cs : List Char) : Option Nat :=
  match cs with
  | '-' :: rest =>
    match based? rest with
    | some n => some n
    | none => if hasLeadingZero cs then none else digits? 10 rest
  | _ => none

inductive Integer where
  /-- Fits into 64 bits. -/
  | small (n : Int)
  /-- Fits into 128 bits. -/
  | large

def integer? (cs : List Char) : Option Integer :=
  match natural? cs, negated? cs with
  | some n, _ =>
    if n < Number.twoTo 64 then some (.small n)
    else if n < Number.twoTo 128 then some .large
    else none
  | none, some n =>
    if n ≤ Number.twoTo 63 then some (.small (-n))
    else if n ≤ Number.twoTo 127 then some .large
    else none
  | none, none => none

/-- A finite float, or one of the words for the others, which JSON has no form for. -/
def float? (s : String) : Option Json :=
  let unsigned := if s.startsWith "+" then (s.drop 1).toString else s
  if unsigned = ".inf" ∨ unsigned = ".Inf" ∨ unsigned = ".INF" then some .null
  else if s = "-.inf" ∨ s = "-.Inf" ∨ s = "-.INF" then some .null
  else if s = ".nan" ∨ s = ".NaN" ∨ s = ".NAN" then some .null
  else if s.startsWith "+" && unsigned.toList.head?.any isSign then none
  else (Number.read? s.toList).bind fun x => if x.isFinite then some (.float x) else none

def plainValue? (s : String) : Option Json :=
  if s.isEmpty || isNullWord s then some .null
  else match bool? s, integer? s.toList with
    | some b, _ => some (.bool b)
    | none, some (.small n) => some (.int n)
    | none, some .large => none
    | none, none =>
      if hasLeadingZero s.toList then some (.string s)
      else some ((float? s).getD (.string s))

def untaggedValue? (plain : Bool) (s : String) : Option Json :=
  if plain then plainValue? s else some (.string s)

/-- The value of a scalar. Tags of the document's own have no JSON form, and say nothing where they
cannot be read; tags from elsewhere make the scalar a text. -/
def scalarValue? (tag : Option Tag) (plain : Bool) (s : String) : Option Json :=
  match tag with
  | none => untaggedValue? plain s
  | some tag =>
    if tag.isLocal then if tag.isReadable then none else untaggedValue? plain s
    else if tag = Tag.core "bool" then (bool? s).map .bool
    else if tag = Tag.core "int" then
      match integer? s.toList with
      | some (.small n) => some (.int n)
      | _ => none
    else if tag = Tag.core "float" then float? s
    else if tag = Tag.core "null" then if isNullWord s then some .null else none
    else some (.string s)

end PromptTemplate.Yaml
