/-!
# Places in a source text

A position counts bytes from the start of the text, and lines and characters of a line from one.
A span is a stretch of text together with the line and column of its first character.
-/

namespace PromptTemplate

structure Position where
  offset : Nat
  line : Nat
  column : Nat
deriving DecidableEq

namespace Position

def start : Position := ⟨0, 1, 1⟩

/-- Only a line feed ends a line. -/
def after (p : Position) (c : Char) : Position :=
  if c = '\n' then ⟨p.offset + c.utf8Size, p.line + 1, 1⟩
  else ⟨p.offset + c.utf8Size, p.line, p.column + 1⟩

def afterAll (p : Position) (cs : List Char) : Position :=
  cs.foldl after p

@[simp] theorem afterAll_nil (p : Position) : p.afterAll [] = p := rfl

@[simp] theorem afterAll_cons (p : Position) (c : Char) (cs : List Char) :
    p.afterAll (c :: cs) = (p.after c).afterAll cs := rfl

theorem afterAll_append (p : Position) (cs ds : List Char) :
    p.afterAll (cs ++ ds) = (p.afterAll cs).afterAll ds :=
  List.foldl_append ..

end Position

/-- Byte offsets of a stretch of text; `line` and `column` are those of its start. -/
structure Span where
  start : Nat
  stop : Nat
  line : Nat
  column : Nat
deriving DecidableEq

namespace Span

def empty (p : Position) : Span := ⟨p.offset, p.offset, p.line, p.column⟩

def between (first last : Position) : Span := ⟨first.offset, last.offset, first.line, first.column⟩

/-- Starts where the first span starts and reaches as far as either does. -/
def join (first last : Span) : Span := { first with stop := max last.stop first.stop }

end Span

/-- Characters of `cs`, the text that starts at byte `offset`, from the byte `first` up to the
byte `last`. -/
def bytesBetween (first last : Nat) : Nat → List Char → List Char
  | _, [] => []
  | offset, c :: cs =>
    let rest := bytesBetween first last (offset + c.utf8Size) cs
    if first ≤ offset ∧ offset + c.utf8Size ≤ last then c :: rest else rest

def Span.textOf (span : Span) (source : String) : String :=
  String.ofList (bytesBetween span.start span.stop 0 source.toList)

end PromptTemplate
