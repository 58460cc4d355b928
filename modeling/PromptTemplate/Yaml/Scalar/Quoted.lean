import PromptTemplate.Text.Hex
import PromptTemplate.Yaml.Cursor

/-!
# Quoted scalars

Between single quotes only the quote itself is written twice; between double quotes a backslash
starts an escape, and one at the end of a line joins it to the next.
-/

namespace PromptTemplate.Yaml.Quoted

/-- How a stretch without a gap ends. -/
inductive End where
  | gap
  | quote
  /-- At a backslash before a line break. -/
  | joined

structure Stretch where
  text : List Char
  stop : End
  rest : List Char

def Stretch.push (c : Char) (s : Stretch) : Stretch := { s with text := c :: s.text }

def single : List Char → Stretch
  | [] => ⟨[], .gap, []⟩
  | '\'' :: '\'' :: cs => (single cs).push '\''
  | c :: cs =>
    if c = '\'' then ⟨[], .quote, cs⟩
    else if isBlankOrBreak c then ⟨[], .gap, c :: cs⟩
    else (single cs).push c

def shortEscape? (c : Char) : Option Char :=
  if c = '0' then some '\x00'
  else if c = 'a' then some '\x07'
  else if c = 'b' then some '\x08'
  else if c = 't' ∨ c = '\t' then some '\t'
  else if c = 'n' then some '\n'
  else if c = 'v' then some '\x0b'
  else if c = 'f' then some '\x0c'
  else if c = 'r' then some '\r'
  else if c = 'e' then some '\x1b'
  else if c = ' ' ∨ c = '"' ∨ c = '/' ∨ c = '\\' then some c
  else if c = 'N' then some (Char.ofNat 0x85)
  else if c = '_' then some (Char.ofNat 0xA0)
  else if c = 'L' then some (Char.ofNat 0x2028)
  else if c = 'P' then some (Char.ofNat 0x2029)
  else none

def codeLength? (c : Char) : Option Nat :=
  if c = 'x' then some 2 else if c = 'u' then some 4 else if c = 'U' then some 8 else none

def escaped? : List Char → Option (Char × List Char)
  | [] => none
  | c :: cs =>
    match shortEscape? c, codeLength? c with
    | some short, _ => some (short, cs)
    | none, some length => do
      let (code, cs) ← Text.takeHex? length cs
      let char ← Text.charOfCode? code
      return (char, cs)
    | none, none => none

def double? : (budget : Nat) → List Char → Option Stretch
  | 0, _ => none
  | _ + 1, [] => some ⟨[], .gap, []⟩
  | budget + 1, c :: cs =>
    if c = '"' then some ⟨[], .quote, cs⟩
    else if isBlankOrBreak c then some ⟨[], .gap, c :: cs⟩
    else if c = '\\' then
      if startsWith isBreak cs then some ⟨[], .joined, cs⟩
      else do
        let (char, cs) ← escaped? cs
        return (← double? budget cs).push char
    else do return (← double? budget cs).push c

def from? (isDouble : Bool) : (budget : Nat) → Cursor → Option (List Char × Cursor)
  | 0, _ => none
  | budget + 1, c =>
    if c.atDocumentMarker || c.rest.isEmpty then none
    else do
      let stretch ← if isDouble then double? (c.rest.length + 1) c.rest else some (single c.rest)
      let c := c.upTo stretch.rest
      let gapAfter (broken : Bool) := Gap.scan? (fun _ _ => true) (c.rest.length + 1) broken
      match stretch.stop with
      | .quote => return (stretch.text, c)
      | .gap =>
        let (gap, c) ← gapAfter false c
        let (more, c) ← from? isDouble budget c
        return (stretch.text ++ gap.text ++ more, c)
      | .joined =>
        let joined := c.skipBreak
        if startsWith (· = '"') joined.rest then return (stretch.text, joined.skip 1)
        let (gap, c) ← gapAfter true joined
        let (more, c) ← from? isDouble budget c
        return (stretch.text ++ gap.breaks ++ more, c)

def scan? (isDouble : Bool) (c : Cursor) : Option (List Char × Cursor) :=
  from? isDouble (c.rest.length + 1) (c.skip 1)

end PromptTemplate.Yaml.Quoted
