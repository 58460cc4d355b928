import PromptTemplate.Node.Parser
import PromptTemplate.Proofs.Token.Modes

/-!
# What is open behind a row of tokens

The constructs that a row of tokens leaves open are told by the kinds of its
tokens, whatever their order: openings and closers of blocks and tags put a
construct on the stack or take one off, a branch marks the innermost one, and
nothing in an expression matters (`Construct.unclosed`).
-/

namespace PromptTemplate

namespace Construct

/-- The last alternative of the innermost construct has been seen. -/
def markElse : List Construct → List Construct
  | .ifBlock _ :: outer => .ifBlock true :: outer
  | .eachBlock _ :: outer => .eachBlock true :: outer
  | stack => stack

/-- The constructs that are open behind tokens of these kinds, innermost first, if those in `stack`
are open in front. A branch is the last alternative unless an `if` stands in it. -/
def unclosed : List TokenKind → (stack : List Construct) → List Construct
  | [], stack => stack
  | kind :: kinds, stack => unclosed kinds <|
    match kind with
    | .blockOpen name =>
      if name = "if" then .ifBlock false :: stack
      else if name = "each" then .eachBlock false :: stack
      else stack
    | .blockBranch => if kinds[1]? = some (.identifier "if") then stack else markElse stack
    | .blockClose _ | .tagClose _ | .tagSelfClose => stack.tail
    | .tagOpen name => .tag name :: stack
    | _ => stack

end Construct

/-- No construct starts, changes or ends with such a token. -/
def TokenKind.isInert : TokenKind → Bool
  | .blockOpen _ | .blockBranch | .blockClose _ | .tagOpen _ | .tagClose _ | .tagSelfClose => false
  | _ => true

theorem Construct.unclosed_inert {kind : TokenKind} (h : kind.isInert) (kinds : List TokenKind)
    (stack : List Construct) : unclosed (kind :: kinds) stack = unclosed kinds stack := by
  cases kind with
  | blockOpen | blockBranch | blockClose | tagOpen | tagClose | tagSelfClose => cases h
  | _ => rfl

example : Construct.unclosed [.blockOpen "if", .identifier "a", .mustacheClose, .tagOpen "user",
    .tagEnd, .blockBranch, .identifier "else", .mustacheClose, .tagClose "user", .blockBranch,
    .identifier "else", .mustacheClose] [] = [.ifBlock true] := rfl

/-- In braces all tokens are inert; they stay in the braces, apart from the closing one. -/
theorem Shift.in_braces {depth : Nat} {outer modes : List Mode} {kind : TokenKind}
    (h : Shift (.expression depth :: outer) kind modes) : kind.isInert ∧
      (kind = .mustacheClose ∧ modes = outer ∨
        kind ≠ .mustacheClose ∧ ∃ depth', modes = .expression depth' :: outer) := by
  cases h with
  | operand h =>
    cases kind with
    | identifier | number | string | symbol => exact ⟨rfl, .inr ⟨nofun, _, rfl⟩⟩
    | _ => cases h
  | braceOpen | braceClose => exact ⟨rfl, .inr ⟨nofun, _, rfl⟩⟩
  | closing => exact ⟨rfl, .inl ⟨rfl, rfl⟩⟩
  | opening _ houter => simp at houter

/-- From these modes the lexer may take the tokens and be in text behind them. -/
def ToText : List Mode → List Token → Prop
  | modes, [] => modes = []
  | modes, token :: ts => ∃ modes', Shift modes token.kind modes' ∧ ToText modes' ts

theorem ToText.tail {modes modes' : List Mode} {token : Token} {ts : List Token}
    (h : ToText modes (token :: ts)) (hshift : Shift modes token.kind modes') : ToText modes' ts := by
  obtain ⟨modes'', hshift', h⟩ := h
  exact hshift.unique hshift' ▸ h

theorem ToText.ne_nil {mode : Mode} {outer : List Mode} {ts : List Token}
    (h : ToText (mode :: outer) ts) : ts ≠ [] := by
  rintro rfl
  cases h

end PromptTemplate
