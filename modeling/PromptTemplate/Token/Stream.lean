import PromptTemplate.Token.Lexer

/-!
# Token streams

All tokens of a text up to its end or to the first place where none can be read, with the position
of the end or the error. Every token takes at least one character, so the length of the text
bounds their number.
-/

namespace PromptTemplate

structure TokenStream where
  tokens : List Token
  /-- The position at the end of the text, or the error that ends the stream. -/
  stop : Except CompileError Position

namespace Lexer

def streamWithin : (budget : Nat) → Lexer → TokenStream
  | 0, l => ⟨[], .ok l.position⟩
  | budget + 1, l =>
    match l.next with
    | (.error error, _) => ⟨[], .error error⟩
    | (.ok none, l) => ⟨[], .ok l.position⟩
    | (.ok (some token), l) =>
      let more := streamWithin budget l
      { more with tokens := token :: more.tokens }

def stream (l : Lexer) : TokenStream := l.streamWithin (l.rest.length + 1)

/-- Tokens and errors in turn, up to the end or to the last of a number of errors. An error may
leave the lexer where it is. -/
def itemsWithin : (budget : Nat) → (errors : Nat) → Lexer → List (Except CompileError Token)
  | 0, _, _ => []
  | budget + 1, errors, l =>
    match l.next with
    | (.ok none, _) => []
    | (.ok (some token), l) => .ok token :: itemsWithin budget errors l
    | (.error error, l) =>
      if errors ≤ 1 then [.error error] else .error error :: itemsWithin budget (errors - 1) l

def items (l : Lexer) (errors : Nat) : List (Except CompileError Token) :=
  l.itemsWithin (l.rest.length + errors + 1) errors

end Lexer

end PromptTemplate
