import PromptTemplate.Proofs.Number.Numeral
import PromptTemplate.Proofs.Parser.Sound
import PromptTemplate.Proofs.Token.Markup

/-!
# The lexer makes good tokens

Names are words, numbers have literals, values of attributes lack their quote,
and after a text there is markup or the end.
-/

namespace PromptTemplate.Lexer

open TokenStream

-- ---------------------------------------------------------------------------
-- Where texts stop
-- ---------------------------------------------------------------------------

def AtMarkup (cs : List Char) : Prop :=
  ∃ c rest, cs = c :: rest ∧ (c = '{' ∨ c = '}' ∨ c = '<' ∧ startsTag rest)

theorem textRun_markup {cs : List Char} (h : AtMarkup cs) (p : Position) :
    textRun none p cs = ⟨[], .atMarkup, p, cs⟩ := by
  obtain ⟨c, rest, rfl, hc⟩ := h
  cases rest with
  | nil => rcases hc with rfl | rfl | ⟨rfl, htag⟩ <;> first | rfl | cases htag
  | cons d rest =>
    rcases hc with rfl | rfl | ⟨rfl, htag⟩
    · rfl
    · rfl
    · simp [textRun, htag]

def TextRun.Stopped (run : TextRun) : Prop :=
  match run.stop with
  | .atEnd => run.rest = []
  | .atMarkup => AtMarkup run.rest
  | .failure _ => True

theorem textRun_stopped (comment : Option Position) (p : Position) (cs : List Char) :
    (textRun comment p cs).Stopped := by
  fun_induction textRun comment p cs with
  | case1 | case5 => rfl
  | case2 | case3 | case10 => trivial
  | case4 p c h =>
    have h : c = '{' ∨ c = '}' := by simpa using h
    exact ⟨c, [], rfl, h.imp_right .inl⟩
  | case6 | case7 | case8 | case9 | case12 => assumption
  | case11 p c d cs _ _ _ h => exact ⟨c, d :: cs, rfl, by simpa [or_assoc] using h⟩

/-- The lexer is between items, and no text comes next. -/
def Quiet (l : Lexer) : Prop := l.modes = [] ∧ (textRun none l.position l.rest).text = []

-- ---------------------------------------------------------------------------
-- Steps
-- ---------------------------------------------------------------------------

/-- What comes of a step of `l`: a token that is as it should be, and after a text no other one. -/
def Step.Lexed (l : Lexer) (s : Step) : Prop :=
  ∀ token m, s = (.ok (some token), m) → token.kind.Lexed ∧ m.configPending = false ∧
    (token.kind.isText → ¬ Quiet l ∧ Quiet m)

namespace Step.Lexed

variable {l m : Lexer} {start : Position} {kind : TokenKind}

theorem emit (hkind : kind.Lexed) (hpending : m.configPending = false)
    (htext : kind.isText = false) : Step.Lexed l (m.emit start kind) := by
  rintro _ _ ⟨⟩
  exact ⟨hkind, hpending, by simp [htext]⟩

theorem fail {cause : Cause} : Step.Lexed l (m.fail start cause) := nofun

theorem finished : Step.Lexed l m.finished := nofun

end Step.Lexed

-- ---------------------------------------------------------------------------
-- Names and numbers
-- ---------------------------------------------------------------------------

variable {l m : Lexer} {c : Char} {more : List Char}

theorem takeRun_cons {q : Char → Bool} (hrest : m.rest = c :: more) (hc : q c) :
    ∃ rest, (m.takeRun q).1.toList = c :: rest ∧ ∀ d ∈ rest, q d := by
  refine ⟨more.takeWhile q, by simp [takeRun, hrest, hc], ?_⟩
  exact List.all_eq_true.mp List.all_takeWhile

theorem startsNumber_iff (cs : List Char) : startsNumber cs ↔
    (Number.takeNumeral cs).1.whole ≠ [] ∨ (Number.takeNumeral cs).1.fraction ≠ [] := by
  cases cs with
  | nil => simp [startsNumber, Number.takeNumeral, Number.takeDigits, Number.takeFraction]
  | cons c cs =>
    cases hc : c.isDigit with
    | true =>
      have hpoint : c ≠ '.' := by rintro rfl; cases hc
      simp [startsNumber, Number.takeNumeral, Number.takeDigits, hc, hpoint]
    | false =>
      by_cases hpoint : c = '.'
      · subst hpoint
        cases cs with
        | nil => simp [startsNumber, Number.takeNumeral, Number.takeDigits, Number.takeFraction]
        | cons d cs =>
          cases hd : d.isDigit <;>
            simp [startsNumber, Number.takeNumeral, Number.takeDigits, Number.takeFraction, hd]
      · simp [startsNumber, Number.takeNumeral, Number.takeDigits, Number.takeFraction, hc, hpoint]

/-- What has been read as a numeral is a literal. -/
theorem denotes_takeNumeral {cs : List Char} (hstart : startsNumber cs) :
    ∃ literal, Denotes literal ((Number.takeNumeral cs).1.toFloat false) := by
  obtain ⟨taken, hcs, hself⟩ := Number.takeNumeral_self (rfl : Number.takeNumeral cs = (_, _))
  refine ⟨taken, ?_, _, hself, rfl⟩
  rw [startsNumber_iff] at hstart ⊢
  rwa [hself]

-- ---------------------------------------------------------------------------
-- The modes
-- ---------------------------------------------------------------------------

section
variable (hpending : m.configPending = false)
include hpending

theorem brace_lexed : Step.Lexed l m.brace := by
  unfold brace
  dsimp only
  split <;> exact .emit trivial hpending rfl

theorem closingTag_lexed : Step.Lexed l m.closingTag := by
  unfold closingTag
  dsimp only
  split
  · exact .fail
  · split
    · exact .emit trivial hpending rfl
    · exact .fail

theorem openingTag_lexed (hrest : m.rest = '<' :: c :: more) (hc : c.isAlpha) :
    Step.Lexed l m.openingTag := by
  have hname : IsTagName ((m.advance 1).takeRun Text.isTagNamePart).1 := by
    have hpart : Text.isTagNamePart c := by simp [Text.isTagNamePart, Char.isAlphanum, hc]
    have hadvance : (m.advance 1).rest = c :: more := by simp [advance, hrest]
    obtain ⟨rest, hname, hrest⟩ := takeRun_cons hadvance hpart
    exact ⟨c, rest, hname, hc, hrest⟩
  have hopened : ∀ {start : Position} {n : Lexer}, n.configPending = false → Step.Lexed l
      (n.emit start (.tagOpen ((m.advance 1).takeRun Text.isTagNamePart).1)) :=
    fun hn => .emit hname hn rfl
  unfold openingTag
  dsimp only
  split
  · exact hopened hpending
  · split
    · exact hopened hpending
    · exact .fail

theorem attributeValue_lexed {start : Position} {quote : Char} (hquote : quote = '"' ∨ quote = '\'') :
    Step.Lexed l (m.attributeValue start quote) := by
  unfold attributeValue
  dsimp only
  split
  · refine .emit ?_ hpending rfl
    have hnone : quote ∉ m.rest.takeWhile (· ≠ quote) := by
      intro hmem
      simpa using List.all_eq_true.mp List.all_takeWhile _ hmem
    rcases hquote with rfl | rfl
    · exact .inl (by simpa using hnone)
    · exact .inr (by simpa using hnone)
  · exact .fail

theorem nextTag_lexed : Step.Lexed l m.nextTag := by
  unfold nextTag
  dsimp only
  split
  · exact .finished
  · exact .emit trivial hpending rfl
  · exact .emit trivial hpending rfl
  · exact .emit trivial hpending rfl
  · exact brace_lexed hpending
  · rename_i c more _ _ _ _ hrest
    split
    · rename_i hquote
      have hadvance : (m.skipBlanks.advance 1).configPending = false := hpending
      exact attributeValue_lexed hadvance (by simpa using hquote)
    · split
      · rename_i hstart
        refine .emit ?_ hpending rfl
        obtain ⟨rest, hname, hall⟩ := takeRun_cons hrest (Text.isTagNamePart_of_isAttributeStart hstart)
        exact ⟨c, rest, hname, hstart, hall⟩
      · exact .fail

theorem nextExpression_lexed (depth : Nat) (outer : List Mode) :
    Step.Lexed l (m.nextExpression depth outer) := by
  unfold nextExpression
  dsimp only
  split
  · exact .finished
  · exact .emit trivial hpending rfl
  · split
    · exact .emit trivial hpending rfl
    · exact .emit trivial hpending rfl
  · rename_i c more _ _ hrest
    split
    · unfold string
      split
      · exact .emit trivial hpending rfl
      · exact .fail
    · split
      · rename_i hstart
        exact .emit (denotes_takeNumeral hstart) hpending rfl
      · split
        · rename_i hstart
          refine .emit ?_ hpending rfl
          obtain ⟨rest, hname, hall⟩ := takeRun_cons hrest (Text.isIdentPart_of_isIdentStart hstart)
          exact ⟨c, rest, hname, hstart, hall⟩
        · split
          · exact .emit trivial hpending rfl
          · exact .fail

theorem nextText_lexed (hmodes : m.modes = []) : Step.Lexed m m.nextText := by
  have hstopped := textRun_stopped none m.position m.rest
  have htext : ∀ {here : Lexer}, (textRun none m.position m.rest).text ≠ [] →
      here.configPending = false → Quiet here → Step.Lexed m
        (here.emit m.position (.text (String.ofList (textRun none m.position m.rest).text))) := by
    rintro here hrun hhere hquiet _ _ ⟨⟩
    exact ⟨by simpa [TokenKind.Lexed] using hrun, hhere, fun _ => ⟨fun h => hrun h.2, hquiet⟩⟩
  unfold nextText
  dsimp only
  rw [TextRun.Stopped] at hstopped
  split
  · exact nofun
  · rename_i hstop
    rw [hstop] at hstopped
    split
    · exact .finished
    · rename_i hrun
      refine htext hrun hpending ⟨hmodes, ?_⟩
      simp only [hstopped]
      rfl
  · rename_i hstop
    rw [hstop] at hstopped
    split
    · rename_i hrun
      refine htext hrun hpending ⟨hmodes, ?_⟩
      rw [textRun_markup hstopped]
    · split
      · exact brace_lexed hpending
      · exact .fail
      · exact closingTag_lexed hpending
      · rename_i hopen hclose hslash
        obtain ⟨c, rest, hrest, rfl | rfl | ⟨rfl, htag⟩⟩ := hstopped
        · exact absurd hrest (hopen rest)
        · exact absurd hrest (hclose rest)
        · cases rest with
          | nil => cases htag
          | cons d rest =>
            have hd : d ≠ '/' := fun heq => hslash '<' rest (heq ▸ hrest)
            exact openingTag_lexed hpending hrest (by simpa [startsTag, hd] using htag)

theorem next_lexed : Step.Lexed m m.next := by
  obtain ⟨cs, p, modes, _⟩ := m
  obtain rfl := hpending
  simp only [next, Bool.false_eq_true, if_false]
  split
  · exact .finished
  · rcases modes with _ | ⟨_ | _, outer⟩
    · exact nextText_lexed rfl rfl
    · exact nextExpression_lexed rfl _ _
    · exact nextTag_lexed rfl

end

-- ---------------------------------------------------------------------------
-- Streams
-- ---------------------------------------------------------------------------

theorem streamWithin_good (budget : Nat) {l : Lexer} (hpending : l.configPending = false) :
    GoodTokens (l.streamWithin budget).tokens ∧
      (Quiet l → ∀ token ∈ (l.streamWithin budget).tokens.head?, token.kind.isText = false) := by
  induction budget generalizing l with
  | zero => exact ⟨trivial, by simp [streamWithin]⟩
  | succ budget ih =>
    have hnext := next_lexed hpending
    rw [streamWithin]
    split
    · exact ⟨trivial, by simp⟩
    · exact ⟨trivial, by simp⟩
    · rename_i token m hstep
      obtain ⟨hlexed, hm, htext⟩ := hnext token m hstep
      obtain ⟨hgood, hquiet⟩ := ih hm
      refine ⟨⟨hlexed, fun h => hquiet (htext h).2, hgood⟩, ?_⟩
      rintro hl _ ⟨⟩
      cases hkind : token.kind.isText with
      | false => rfl
      | true => exact absurd hl (htext hkind).1

end PromptTemplate.Lexer
