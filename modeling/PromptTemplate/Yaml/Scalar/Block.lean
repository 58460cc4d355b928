import PromptTemplate.Yaml.Cursor

/-!
# Block scalars

Text that takes whole lines, with an indentation that its first line or its header gives. Literal
text keeps its line breaks; folded text turns a single one between lines that do not start with a
blank into a space. The header also says what becomes of the breaks at the end.
-/

namespace PromptTemplate.Yaml.Block

inductive Chomping where
  | strip | clip | keep
deriving DecidableEq

structure Header where
  chomping : Chomping
  increment : Option Nat

def chomping? : List Char → Option (Chomping × List Char)
  | '+' :: cs => some (.keep, cs)
  | '-' :: cs => some (.strip, cs)
  | _ => none

/-- A digit other than zero, if there is a digit. -/
def increment? : List Char → Option (Option Nat × List Char)
  | [] => some (none, [])
  | c :: cs =>
    if c = '0' then none
    else if c.isDigit then some (some (c.toNat - '0'.toNat), cs)
    else some (none, c :: cs)

/-- The signs behind the indicator, in either order. -/
def header? (cs : List Char) : Option (Header × List Char) :=
  match chomping? cs with
  | some (chomping, cs) => do
    let (increment, cs) ← increment? cs
    return (⟨chomping, increment⟩, cs)
  | none => do
    let (increment, cs) ← increment? cs
    match increment, chomping? cs with
    | some n, some (chomping, cs) => return (⟨chomping, some n⟩, cs)
    | _, _ => return (⟨.clip, increment⟩, cs)

structure Lead where
  breaks : List Char
  /-- The deepest column reached. -/
  deepest : Nat
  cursor : Cursor

/-- Indentation and empty lines. A tab may not stand where indentation is expected. -/
def lead? (indent : Option Nat) : (budget : Nat) → (deepest : Nat) → Cursor → Option Lead
  | 0, deepest, c => some ⟨[], deepest, c⟩
  | budget + 1, deepest, c =>
    let spaces := c.rest.takeWhile (· = ' ')
    let wanted := match indent with
      | some indent => min spaces.length (indent - c.column)
      | none => spaces.length
    let c := c.skip wanted
    let deepest := max deepest c.column
    let short := indent.all (c.column < ·)
    match c.rest with
    | [] => some ⟨[], deepest, c⟩
    | ch :: _ =>
      if short && ch = '\t' then none
      else if isBreak ch then do
        let more ← lead? indent budget deepest c.skipBreak
        return { more with breaks := ch :: more.breaks }
      else some ⟨[], deepest, c⟩

/-- Lines, and the breaks that are left at the end. -/
structure Lines where
  text : List Char
  lastBreak : List Char
  emptyLines : List Char
  cursor : Cursor

def lines? (literal : Bool) (indent : Nat) :
    (budget : Nat) → (afterBlank : Bool) → (lastBreak emptyLines : List Char) → Cursor →
      Option Lines
  | 0, _, lastBreak, emptyLines, c => some ⟨[], lastBreak, emptyLines, c⟩
  | budget + 1, afterBlank, lastBreak, emptyLines, c =>
    if c.column ≠ indent || c.rest.isEmpty then some ⟨[], lastBreak, emptyLines, c⟩
    else do
      let startsBlank := startsWith isBlank c.rest
      let folds := !literal && lastBreak = ['\n'] && !afterBlank && !startsBlank
      let joint := if folds then (if emptyLines.isEmpty then [' '] else []) else lastBreak
      let line := c.rest.takeWhile (!isBreak ·)
      let ended := c.skip line.length
      let next := ended.rest.take 1
      let c := if next.isEmpty then ended else ended.skipBreak
      let lead ← lead? (some indent) (c.rest.length + 1) 0 c
      let more ← lines? literal indent budget startsBlank next lead.breaks lead.cursor
      return { more with text := joint ++ emptyLines ++ line ++ more.text }

/-- A scalar from its indicator on, inside a structure indented by `parent`. -/
def scan? (literal : Bool) (parent : Int) (c : Cursor) : Option (List Char × Cursor) := do
  let (header, rest) ← header? (c.rest.drop 1)
  let c := (c.upTo rest).skipWhile isBlank
  let c := if startsWith (· = '#') c.rest then c.toLineEnd else c
  if !endsOr isBreak c.rest then none
  let c := if c.rest.isEmpty then c else c.skipBreak
  let given := header.increment.map fun n => (max parent 0).toNat + n
  let lead ← lead? given (c.rest.length + 1) 0 c
  let indent := given.getD (max lead.deepest (max (parent + 1).toNat 1))
  let lines ← lines? literal indent (lead.cursor.rest.length + 1) false [] lead.breaks lead.cursor
  let tail := match header.chomping with
    | .strip => []
    | .clip => lines.lastBreak
    | .keep => lines.lastBreak ++ lines.emptyLines
  return (lines.text ++ tail, lines.cursor)

end PromptTemplate.Yaml.Block
