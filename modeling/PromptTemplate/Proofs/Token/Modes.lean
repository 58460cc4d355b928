import Mathlib.Logic.Function.Iterate
import PromptTemplate.Token.Stream

/-!
# The modes of the lexer

What each kind of token does to the stack of modes, and the stacks that come
about. A document is read in text, in a tag, in braces in text, or in braces
in a tag.
-/

namespace PromptTemplate

namespace TokenKind

/-- The opening of a mustache or of a part of a block. -/
def opensBraces : TokenKind → Bool
  | .mustacheOpen | .blockOpen _ | .blockBranch | .blockClose _ => true
  | _ => false

/-- A word of an expression that opens and closes nothing. -/
def isOperand : TokenKind → Bool
  | .identifier _ | .number _ | .string _ => true
  | .symbol s => s ≠ .braceOpen ∧ s ≠ .braceClose
  | _ => false

/-- A word between the name of a tag and its end. -/
def isAttribute : TokenKind → Bool
  | .attributeName _ | .attributeValue _ | .symbol .assign => true
  | _ => false

def endsTag : TokenKind → Bool
  | .tagEnd | .tagSelfClose => true
  | _ => false

theorem isOperand_of_mem_table : ∀ s ∈ Symbol.table, (symbol s).isOperand := by
  decide

end TokenKind

/-- A token of this kind leads from one stack of modes to the other. -/
inductive Shift : List Mode → TokenKind → List Mode → Prop
  | text {value} : Shift [] (.text value) []
  | tagClose {name} : Shift [] (.tagClose name) []
  | tagOpen {name} : Shift [] (.tagOpen name) [.tag]
  | word {kind outer} (h : kind.isAttribute) : Shift (.tag :: outer) kind (.tag :: outer)
  | tagEnd {kind outer} (h : kind.endsTag) : Shift (.tag :: outer) kind outer
  | opening {kind outer} (h : kind.opensBraces) (houter : outer = [] ∨ outer.head? = some .tag) :
    Shift outer kind (.expression 0 :: outer)
  | operand {kind depth outer} (h : kind.isOperand) :
    Shift (.expression depth :: outer) kind (.expression depth :: outer)
  | braceOpen {depth outer} :
    Shift (.expression depth :: outer) (.symbol .braceOpen) (.expression (depth + 1) :: outer)
  | braceClose {depth outer} :
    Shift (.expression (depth + 1) :: outer) (.symbol .braceClose) (.expression depth :: outer)
  | closing {outer} : Shift (.expression 0 :: outer) .mustacheClose outer

/-- The modes behind a token are given by the modes in front of it and its kind. -/
theorem Shift.unique {modes modes' modes'' : List Mode} {kind : TokenKind}
    (h : Shift modes kind modes') (h' : Shift modes kind modes'') : modes' = modes'' := by
  cases kind <;> cases h <;> cases h' <;> simp_all [TokenKind.isAttribute, TokenKind.endsTag,
    TokenKind.opensBraces, TokenKind.isOperand]

/-- A section is not taken in any mode. -/
theorem Shift.not_config {modes modes' : List Mode} {body : String} :
    ¬ Shift modes (.config body) modes' := by
  intro h
  cases h with
  | word h | tagEnd h | opening h | operand h => cases h

namespace Lexer

/-- A step in these modes shifts them by its token, and leaves them as they are without one. -/
structure Step.Turns (modes : List Mode) (pending : Bool) (s : Step) : Prop where
  pending : s.2.configPending = pending
  shift : ∀ token, s.1 = .ok (some token) → Shift modes token.kind s.2.modes
  stay : (∀ token, s.1 ≠ .ok (some token)) → s.2.modes = modes

namespace Step.Turns

variable {modes : List Mode} {pending : Bool} {m : Lexer} {start : Position}

theorem emit {kind : TokenKind} (hpending : m.configPending = pending)
    (h : Shift modes kind m.modes) : Step.Turns modes pending (m.emit start kind) where
  pending := hpending
  shift := by
    rintro _ ⟨⟩
    exact h
  stay h := absurd rfl (h _)

theorem fail {cause : Cause} (hpending : m.configPending = pending) (h : m.modes = modes) :
    Step.Turns modes pending (m.fail start cause) where
  pending := hpending
  shift := nofun
  stay _ := h

theorem finished (hpending : m.configPending = pending) (h : m.modes = modes) :
    Step.Turns modes pending m.finished where
  pending := hpending
  shift := nofun
  stay _ := h

end Step.Turns

theorem brace_turns {m : Lexer} (h : m.modes = [] ∨ m.modes.head? = some .tag) :
    Step.Turns m.modes m.configPending m.brace := by
  unfold brace
  dsimp only
  split <;> exact .emit rfl (.opening rfl h)

section
variable (cs : List Char) (p : Position) (pending : Bool)

theorem closingTag_turns : Step.Turns [] pending (⟨cs, p, [], pending⟩ : Lexer).closingTag := by
  unfold closingTag
  dsimp only
  split
  · exact .fail rfl rfl
  · split
    · exact .emit rfl .tagClose
    · exact .fail rfl rfl

theorem openingTag_turns : Step.Turns [] pending (⟨cs, p, [], pending⟩ : Lexer).openingTag := by
  unfold openingTag
  dsimp only
  split
  · exact .emit rfl .tagOpen
  · split
    · exact .emit rfl .tagOpen
    · exact .fail rfl rfl

theorem nextText_turns : Step.Turns [] pending (⟨cs, p, [], pending⟩ : Lexer).nextText := by
  unfold nextText
  dsimp only
  split
  · exact ⟨rfl, nofun, fun _ => rfl⟩
  · split
    · exact .finished rfl rfl
    · exact .emit rfl .text
  · split
    · exact .emit rfl .text
    · split
      · exact brace_turns (m := ⟨_, _, [], pending⟩) (.inl rfl)
      · exact .fail rfl rfl
      · exact closingTag_turns _ _ _
      · exact openingTag_turns _ _ _

theorem nextTag_turns (outer : List Mode) :
    Step.Turns (.tag :: outer) pending (⟨cs, p, .tag :: outer, pending⟩ : Lexer).nextTag := by
  unfold nextTag
  dsimp only
  split
  · exact .finished rfl rfl
  · exact .emit rfl (.tagEnd rfl)
  · exact .emit rfl (.tagEnd rfl)
  · exact .emit rfl (.word rfl)
  · exact brace_turns (m := skipBlanks ⟨cs, p, .tag :: outer, pending⟩) (.inr rfl)
  · split
    · unfold attributeValue
      dsimp only
      split
      · exact .emit rfl (.word rfl)
      · exact .fail rfl rfl
    · split
      · exact .emit rfl (.word rfl)
      · exact .fail rfl rfl

theorem nextExpression_turns (depth : Nat) (outer : List Mode) :
    Step.Turns (.expression depth :: outer) pending
      ((⟨cs, p, .expression depth :: outer, pending⟩ : Lexer).nextExpression depth outer) := by
  unfold nextExpression
  dsimp only
  split
  · exact .finished rfl rfl
  · exact .emit rfl .braceOpen
  · split
    · exact .emit rfl .closing
    · exact .emit rfl .braceClose
  · split
    · unfold string
      split
      · exact .emit rfl (.operand rfl)
      · exact .fail rfl rfl
    · split
      · exact .emit rfl (.operand rfl)
      · split
        · exact .emit rfl (.operand rfl)
        · split
          · rename_i symbol hsymbol
            have htable := List.mem_of_find?_eq_some hsymbol
            exact .emit rfl (.operand (TokenKind.isOperand_of_mem_table symbol htable))
          · exact .fail rfl rfl

end

/-- Once the opening section has been looked for. -/
theorem next_turns {m : Lexer} (hpending : m.configPending = false) :
    Step.Turns m.modes false m.next := by
  obtain ⟨cs, p, modes, _⟩ := m
  obtain rfl := hpending
  simp only [next, Bool.false_eq_true, if_false]
  split
  · exact .finished rfl rfl
  · rcases modes with _ | ⟨_ | _, outer⟩
    · exact nextText_turns cs p false
    · exact nextExpression_turns cs p false _ outer
    · exact nextTag_turns cs p false outer

-- ---------------------------------------------------------------------------
-- The opening section
-- ---------------------------------------------------------------------------

/-- A step that takes the opening section, or finds it without its end. -/
structure Step.Opens (modes : List Mode) (s : Step) : Prop where
  pending : s.2.configPending = false
  stay : s.2.modes = modes
  config : ∀ token, s.1 = .ok (some token) → ∃ body, token.kind = .config body

theorem config?_opens {m : Lexer} {step : Step} (hpending : m.configPending = false)
    (h : m.config? = some step) : Step.Opens m.modes step := by
  unfold config? at h
  dsimp only at h
  split at h
  · cases h
  · split at h
    · split at h
      · cases h
        exact ⟨hpending, rfl, nofun⟩
      · cases h
        refine ⟨hpending, rfl, ?_⟩
        rintro _ ⟨⟩
        exact ⟨_, rfl⟩
    · cases h

/-- The lexer when the opening section has been looked for. -/
def ready (l : Lexer) : Lexer := { l with configPending := false }

theorem next_cases (l : Lexer) :
    (l.configPending ∧ l.ready.config? = some l.next) ∨ l.next = l.ready.next := by
  obtain ⟨cs, p, modes, _ | _⟩ := l
  · exact .inr rfl
  · cases hconfig : (⟨cs, p, modes, false⟩ : Lexer).config? with
    | some step => exact .inl ⟨rfl, by simp [next, ready, hconfig]⟩
    | none => exact .inr (by simp only [next, ready, hconfig]; rfl)

theorem next_of_config? {source : String} {step : Step}
    (h : (document source).ready.config? = some step) : (document source).next = step := by
  have h' : (⟨source.toList, .start, [], false⟩ : Lexer).config? = some step := h
  simp only [next, document, if_true, h']

-- ---------------------------------------------------------------------------
-- Runs
-- ---------------------------------------------------------------------------

/-- The lexer after a number of steps, whatever comes of them. -/
def after (l : Lexer) (n : Nat) : Lexer := (fun m => m.next.2)^[n] l

theorem after_succ (l : Lexer) (n : Nat) : l.after (n + 1) = (l.after n).next.2 :=
  Function.iterate_succ_apply' ..

theorem after_add (l : Lexer) (m n : Nat) : l.after (m + n) = (l.after m).after n := by
  rw [after, Nat.add_comm, Function.iterate_add_apply]
  rfl

theorem next_configPending (l : Lexer) : l.next.2.configPending = false := by
  obtain ⟨-, h⟩ | h := next_cases l
  · exact (config?_opens rfl h).pending
  · rw [h]
    exact (next_turns rfl).pending

end Lexer

namespace Mode

/-- Text, a tag, braces in text, or braces in a tag. -/
inductive IsStack : List Mode → Prop
  | text : IsStack []
  | tag : IsStack [.tag]
  | braces (depth : Nat) : IsStack [.expression depth]
  | bracesInTag (depth : Nat) : IsStack [.expression depth, .tag]

theorem IsStack.shift {modes modes' : List Mode} {kind : TokenKind} (h : IsStack modes)
    (hshift : Shift modes kind modes') : IsStack modes' := by
  cases hshift with
  | text | tagClose => exact .text
  | tagOpen => exact .tag
  | word => exact h
  | tagEnd => cases h; exact .text
  | opening _ houter =>
    cases h with
    | text => exact .braces 0
    | tag => exact .bracesInTag 0
    | braces | bracesInTag => simp at houter
  | operand => exact h
  | braceOpen | braceClose =>
    cases h with
    | braces => exact .braces _
    | bracesInTag => exact .bracesInTag _
  | closing =>
    cases h with
    | braces => exact .text
    | bracesInTag => exact .tag

end Mode

namespace Lexer

theorem next_isStack {l : Lexer} (h : Mode.IsStack l.modes) : Mode.IsStack l.next.2.modes := by
  obtain ⟨-, hconfig⟩ | hready := next_cases l
  · exact (config?_opens rfl hconfig).stay ▸ h
  · have hturns := next_turns (m := l.ready) rfl
    rw [← hready] at hturns
    by_cases htoken : ∃ token, l.next.1 = .ok (some token)
    · obtain ⟨token, htoken⟩ := htoken
      exact h.shift (hturns.shift token htoken)
    · exact (hturns.stay (not_exists.mp htoken)) ▸ h

theorem after_isStack {l : Lexer} (h : Mode.IsStack l.modes) (n : Nat) :
    Mode.IsStack (l.after n).modes := by
  induction n with
  | zero => exact h
  | succ n ih =>
    rw [after_succ]
    exact next_isStack ih

end Lexer
end PromptTemplate
