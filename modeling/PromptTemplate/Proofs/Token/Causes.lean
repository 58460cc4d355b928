import PromptTemplate.Proofs.Parser.Paired

/-!
# What the lexer finds wrong

In each of its modes the lexer takes a token or says what it found in place of
one, which is never that a text should be there. What holds of the causes that
a function of the lexer names holds of its errors.
-/

namespace PromptTemplate.Lexer

variable {P : Cause → Prop} {m : Lexer}

/-- Every error of the step has a cause like this. -/
def Step.Blames (P : Cause → Prop) (s : Step) : Prop := ∀ error, s.1 = .error error → P error.cause

namespace Step.Blames

variable {start : Position}

theorem emit {kind : TokenKind} : Step.Blames P (m.emit start kind) := nofun

theorem finished : Step.Blames P m.finished := nofun

theorem fail {cause : Cause} (h : P cause) : Step.Blames P (m.fail start cause) := by
  rintro _ ⟨⟩
  exact h

theorem ite {c : Prop} [Decidable c] {s s' : Step} (h : Step.Blames P s) (h' : Step.Blames P s') :
    Step.Blames P (if c then s else s') := by
  split
  · exact h
  · exact h'

end Step.Blames

theorem config?_blames {l : Lexer} {step : Step} (hconfig : P .unclosedConfig)
    (h : l.config? = some step) : Step.Blames P step := by
  unfold config? at h
  dsimp only at h
  split at h
  · cases h
  · split at h
    · split at h
      · cases h
        exact .fail hconfig
      · cases h
        exact .emit
    · cases h

theorem textRun_blames (hunclosed : P .unclosedComment) (hend : P .strayCommentEnd)
    (comment : Option Position) (p : Position) (cs : List Char) :
    ∀ error, (textRun comment p cs).stop = .failure error → P error.cause := by
  fun_induction textRun comment p cs with
  | case1 | case4 | case5 | case11 => rintro _ ⟨⟩
  | case2 | case3 =>
    rintro _ ⟨⟩
    exact hunclosed
  | case10 =>
    rintro _ ⟨⟩
    exact hend
  | case6 _ _ _ _ _ _ _ _ ih | case7 _ _ _ _ _ _ _ ih | case8 _ _ _ _ _ _ _ ih
  | case9 _ _ _ _ _ _ _ _ ih | case12 _ _ _ _ _ _ _ _ _ ih => exact ih

theorem brace_blames (m : Lexer) : Step.Blames P m.brace := by
  unfold brace
  dsimp only
  split <;> exact .emit

theorem closingTag_blames (hname : P .invalidTagName) (hangle : P (.unexpected ">")) (m : Lexer) :
    Step.Blames P m.closingTag := by
  unfold closingTag
  dsimp only
  refine .ite (.fail hname) ?_
  split
  · exact .emit
  · exact .fail hangle

theorem openingTag_blames (hname : P .invalidTagName) (m : Lexer) : Step.Blames P m.openingTag := by
  unfold openingTag
  dsimp only
  split
  · exact .emit
  · exact .ite .emit (.fail hname)

theorem nextText_blames (hunclosed : P .unclosedComment) (hend : P .strayCommentEnd)
    (hbrace : P .strayBrace) (hname : P .invalidTagName) (hangle : P (.unexpected ">")) (m : Lexer) :
    Step.Blames P m.nextText := by
  unfold nextText
  dsimp only
  split
  · rename_i error hstop
    rintro _ ⟨⟩
    exact textRun_blames hunclosed hend _ _ _ _ hstop
  · exact .ite .finished .emit
  · refine .ite .emit ?_
    split
    · exact brace_blames _
    · exact .fail hbrace
    · exact closingTag_blames hname hangle _
    · exact openingTag_blames hname _

theorem nextTag_blames (hangle : P (.unexpected ">")) (hquote : ∀ quote, P (.unclosedAttribute quote))
    (m : Lexer) : Step.Blames P m.nextTag := by
  unfold nextTag
  dsimp only
  split
  · exact .finished
  · exact .emit
  · exact .emit
  · exact .emit
  · exact brace_blames _
  · refine .ite ?_ (.ite .emit (.fail hangle))
    unfold attributeValue
    exact .ite .emit (.fail (hquote _))

theorem nextExpression_blames (hstring : ∀ quote, P (.unexpectedEnd (String.singleton quote)))
    (hoperator : ∀ text, P (.unsupportedOperator text)) (m : Lexer) (depth : Nat)
    (outer : List Mode) : Step.Blames P (m.nextExpression depth outer) := by
  unfold nextExpression
  dsimp only
  split
  · exact .finished
  · exact .emit
  · split <;> exact .emit
  · refine .ite ?_ (.ite .emit (.ite .emit ?_))
    · unfold string
      split
      · exact .emit
      · exact .fail (hstring _)
    · split
      · exact .emit
      · exact .fail (hoperator _)

-- ---------------------------------------------------------------------------
-- What a reader of templates may find
-- ---------------------------------------------------------------------------

def Step.Readable (s : Step) : Prop := ∀ error, s.1 = .error error → error.cause.isReadable

theorem isReadable_unexpected : (Cause.unexpected ">").isReadable := by decide

theorem isReadable_unclosedString (quote : Char) :
    (Cause.unexpectedEnd (String.singleton quote)).isReadable := by
  refine decide_eq_true fun h => ?_
  have hlength := congrArg (List.length ∘ String.toList) h
  simp at hlength

theorem next_readable (l : Lexer) : Step.Readable l.next := by
  change Step.Blames (·.isReadable) l.next
  unfold next
  dsimp only
  split
  · rename_i hstep
    split at hstep
    · exact config?_blames rfl hstep
    · cases hstep
  · split
    · exact .finished
    · unfold nextInMode
      split
      · refine nextText_blames ?_ ?_ ?_ ?_ isReadable_unexpected _ <;> rfl
      · exact nextTag_blames isReadable_unexpected (by exact fun _ => rfl) _
      · exact nextExpression_blames isReadable_unclosedString (by exact fun _ => rfl) _ _ _

/-- The error that ends a stream. -/
theorem stream_readable {l : Lexer} {error : CompileError} (h : l.stream.stop = .error error) :
    error.cause.isReadable := by
  have hwithin (budget : Nat) : ∀ l : Lexer, (l.streamWithin budget).stop = .error error →
      error.cause.isReadable := by
    induction budget with
    | zero => nofun
    | succ budget ih =>
      intro l h
      rw [streamWithin] at h
      split at h
      · rename_i found _ hnext
        cases h
        exact next_readable l _ (by rw [hnext])
      · cases h
      · exact ih _ h
  exact hwithin _ l h

end PromptTemplate.Lexer
