import PromptTemplate.Text.Alphabetic
import PromptTemplate.Text.Numeric

/-!
# Letters and names

The classes of characters from which identifiers and tag names are made.
-/

namespace PromptTemplate.Text

def inRanges (ranges : Array (Nat × Nat)) (c : Char) : Bool :=
  ranges.any fun (low, high) => low ≤ c.toNat && c.toNat ≤ high

/-- A letter of any script; the table is consulted only beyond ASCII. -/
def isLetter (c : Char) : Bool :=
  if c.toNat < 128 then c.isAlpha else inRanges alphabeticRanges c

def isLetterOrNumber (c : Char) : Bool :=
  if c.toNat < 128 then c.isAlphanum
  else inRanges alphabeticRanges c || inRanges numericRanges c

def isIdentStart (c : Char) : Bool := isLetter c || c = '_' || c = '$'

def isIdentPart (c : Char) : Bool := isLetterOrNumber c || c = '_' || c = '$'

/-- May stand anywhere in the name of a tag or an attribute. -/
def isTagNamePart (c : Char) : Bool := c.isAlphanum || c = '_' || c = '-' || c = ':' || c = '.'

def isAttributeStart (c : Char) : Bool := c.isAlpha || c = '_' || c = ':'

end PromptTemplate.Text
