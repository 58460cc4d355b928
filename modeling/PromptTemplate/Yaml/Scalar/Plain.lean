import PromptTemplate.Yaml.Cursor

/-!
# Plain scalars

Text without quotes. It ends at a colon before a gap, at a comment, at a document marker, inside
brackets also at commas and brackets, and outside them where a line is not indented enough.
-/

namespace PromptTemplate.Yaml.Plain

def isFlowIndicator (c : Char) : Bool := c = ',' || c = '[' || c = ']' || c = '{' || c = '}'

/-- The longest stretch without a gap, and what follows it. Inside brackets a colon directly
before an indicator is an error. -/
def stretch? (inFlow : Bool) : List Char → Option (List Char × List Char)
  | [] => some ([], [])
  | c :: cs =>
    if isBlankOrBreak c then some ([], c :: cs)
    else if inFlow && c = ':' && startsWith (fun d => isFlowIndicator d || d = '?') cs then none
    else if (c = ':' && atGap cs) || (inFlow && isFlowIndicator c) then some ([], c :: cs)
    else (stretch? inFlow cs).map fun (text, rest) => (c :: text, rest)

structure Scanned where
  text : List Char
  /-- Line breaks were skipped after the last character. -/
  broken : Bool
  cursor : Cursor

/-- The rest of a scalar after a gap. A gap that nothing follows is not part of it. -/
def from? (inFlow : Bool) (indent : Int) : (budget : Nat) → Gap → Cursor → Option Scanned
  | 0, _, c => some ⟨[], false, c⟩
  | budget + 1, gap, c =>
    if c.atDocumentMarker || startsWith (· = '#') c.rest then
      some ⟨[], !gap.breaks.isEmpty, c⟩
    else do
      let (text, rest) ← stretch? inFlow c.rest
      if text.isEmpty then return ⟨[], !gap.breaks.isEmpty, c⟩
      let text := gap.text ++ text
      let c := c.upTo rest
      if !startsWith isBlankOrBreak c.rest then return ⟨text, false, c⟩
      let (gap, c) ← Gap.scan? (fun blank column => blank = ' ' || indent ≤ column)
        (c.rest.length + 1) false c
      if !inFlow && (c.column : Int) < indent then return ⟨text, !gap.breaks.isEmpty, c⟩
      let more ← from? inFlow indent budget gap c
      return { more with text := text ++ more.text }

def scan? (inFlow : Bool) (indent : Int) (c : Cursor) : Option Scanned :=
  from? inFlow indent (c.rest.length + 1) Gap.none c

end PromptTemplate.Yaml.Plain
