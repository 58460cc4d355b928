import PromptTemplate.Proofs.Token.Causes
import PromptTemplate.Proofs.Token.Progress

/-!
# A brace that closes nothing

Where a text is read, a closing brace is an error. The error does not start at
the brace but where the lexer was when it looked for the next token, and it may
have passed over comments since then (`strayBrace_location`).
-/

namespace PromptTemplate.Lexer

variable {m : Lexer} {error : CompileError}

theorem nextText_strayBrace (h : m.nextText.1 = .error error) (hcause : error.cause = .strayBrace) :
    ∃ (comments : List (List Char)) (behind : List Char), (∀ comment ∈ comments, IsComment comment) ∧
      m.rest = comments.flatten ++ '}' :: behind ∧
      error.location = .between m.position ((m.position.afterAll comments.flatten).after '}') := by
  have hskims := textRun_skims none m.position m.rest
  have hleads := (textRun_placed none m.position m.rest (.refl m.place) nofun).finish
  have hother := textRun_blames (P := (· ≠ .strayBrace)) nofun nofun none m.position m.rest
  unfold nextText at h
  dsimp only at h
  generalize textRun none m.position m.rest = run at *
  split at h
  · rename_i found hstop
    cases h
    exact absurd hcause (hother _ hstop)
  · split at h <;> cases h
  · rename_i hstop
    split at h
    · cases h
    · rename_i htext
      obtain ⟨comments, hcomments, hrest⟩ := hskims.comments (by simpa using htext) (by simp [hstop])
      split at h
      · exact absurd hcause (brace_blames (P := (· ≠ .strayBrace)) _ _ h)
      · rename_i behind hbrace
        obtain rfl := Except.error.inj h
        rw [hbrace] at hrest
        have hposition : run.position = m.position.afterAll comments.flatten := by
          obtain ⟨taken, htaken, hposition⟩ := hleads
          have hsame : taken ++ run.rest = comments.flatten ++ run.rest := by
            rw [hbrace, ← hrest, ← hbrace]
            exact htaken.symm
          rw [← List.append_cancel_right hsame]
          exact hposition
        refine ⟨comments, behind, hcomments, hrest, ?_⟩
        simp [advance, hbrace, hposition]
      · exact absurd hcause (closingTag_blames (P := (· ≠ .strayBrace)) (by simp) (by simp) _ _ h)
      · exact absurd hcause (openingTag_blames (P := (· ≠ .strayBrace)) (by simp) _ _ h)

/-- Only a text has such a brace. -/
theorem next_strayBrace (h : m.next.1 = .error error) (hcause : error.cause = .strayBrace) :
    ∃ (comments : List (List Char)) (behind : List Char), (∀ comment ∈ comments, IsComment comment) ∧
      m.rest = comments.flatten ++ '}' :: behind ∧
      error.location = .between m.position ((m.position.afterAll comments.flatten).after '}') := by
  obtain ⟨cs, p, modes, pending⟩ := m
  unfold next at h
  dsimp only at h
  split at h
  · rename_i step hstep
    split at hstep
    · exact absurd hcause (config?_blames (P := (· ≠ .strayBrace)) nofun hstep _ h)
    · cases hstep
  · split at h
    · cases h
    · unfold nextInMode at h
      dsimp only at h
      split at h
      · exact nextText_strayBrace (m := ⟨cs, p, [], false⟩) h hcause
      · exact absurd hcause (nextTag_blames (P := (· ≠ .strayBrace)) nofun nofun _ _ h)
      · exact absurd hcause (nextExpression_blames (P := (· ≠ .strayBrace)) nofun nofun _ _ _ _ h)

/-- A comment is not empty, so what comes behind comments starts later. -/
theorem offset_comments {comments : List (List Char)} (h : ∀ comment ∈ comments, IsComment comment)
    (p : Position) : p.offset = (p.afterAll comments.flatten).offset ↔ comments = [] := by
  cases comments with
  | nil => simp
  | cons comment comments =>
    obtain ⟨body, rfl, -⟩ := h _ (List.mem_cons_self ..)
    have hpos := Char.utf8Size_pos '/'
    simp only [Position.afterAll_offset, List.flatten_cons, List.cons_append, List.map_cons,
      List.sum_cons, reduceCtorEq, iff_false]
    omega

/-- A brace that closes nothing is reported from the end of the token in front of it, over the
comments in between. So the error is at the brace if and only if there are none. -/
theorem strayBrace_location {source : String} {l : Lexer}
    (hl : l = document source ∨ l = expression source) (n : Nat)
    (h : (l.after n).next.1 = .error error) (hcause : error.cause = .strayBrace) :
    ∃ (before : List Char) (comments : List (List Char)) (behind : List Char),
      source.toList = before ++ (comments.flatten ++ '}' :: behind) ∧
      (l.after n).position = Position.start.afterAll before ∧
      (∀ comment ∈ comments, IsComment comment) ∧
      let brace := Position.start.afterAll (before ++ comments.flatten)
      error.location = .between (l.after n).position (brace.after '}') ∧
      error.location.textOf source = String.ofList (comments.flatten ++ ['}']) ∧
      (error.location = .between brace (brace.after '}') ↔ comments = []) := by
  obtain ⟨before, hbefore, hposition⟩ := leads_after l n
  have hstart : l.place = Place.startOf source.toList := by rcases hl with rfl | rfl <;> rfl
  obtain ⟨comments, behind, hcomments, hrest, hlocation⟩ := next_strayBrace h hcause
  rw [hstart] at hbefore hposition
  refine ⟨before, comments, behind, ?_, hposition, hcomments, ?_⟩
  · rw [← hrest]
    exact hbefore
  · intro brace
    have hbrace : brace = (l.after n).position.afterAll comments.flatten := by
      rw [show (l.after n).position = Position.start.afterAll before from hposition,
        ← Position.afterAll_append]
    rw [hbrace]
    refine ⟨hlocation, ?_, ?_⟩
    · have hleads : (Place.startOf source.toList).Leads (l.after n).place := ⟨before, hbefore, hposition⟩
      have hbytes := Place.bytesBetween_leads
        (c := ⟨((l.after n).position.afterAll comments.flatten).after '}', behind⟩) hleads
        (show (l.after n).rest = (comments.flatten ++ ['}']) ++ behind by simpa using hrest)
        (Position.afterAll_concat (l.after n).position comments.flatten '}').symm
      rw [hlocation]
      exact congrArg String.ofList hbytes
    · rw [hlocation, ← offset_comments hcomments (l.after n).position]
      constructor
      · exact fun heq => congrArg Span.start heq
      · intro hoffset
        rw [(offset_comments hcomments _).1 hoffset]
        rfl

theorem next_commentBrace :
    ((document "/**/\x7d").after 0).next.1 = .error ⟨.strayBrace, ⟨0, 5, 1, 1⟩⟩ := by
  decide +kernel

/-- Behind a comment the error covers the comment, too. -/
theorem strayBrace_location_comment :
    ((document "/**/\x7d").after 0).next.1 = .error ⟨.strayBrace, ⟨0, 5, 1, 1⟩⟩ ∧
    ∃ (before : List Char) (comments : List (List Char)) (behind : List Char),
      "/**/\x7d".toList = before ++ (comments.flatten ++ '}' :: behind) ∧
      (∀ comment ∈ comments, IsComment comment) ∧
      (⟨0, 5, 1, 1⟩ : Span).textOf "/**/\x7d" = String.ofList (comments.flatten ++ ['}']) := by
  obtain ⟨before, comments, behind, hsource, -, hcomments, -, htext, -⟩ :=
    strayBrace_location (.inl rfl) 0 next_commentBrace rfl
  exact ⟨next_commentBrace, before, comments, behind, hsource, hcomments, htext⟩

/-- Not every such error is at its brace. -/
theorem strayBrace_not_at_brace :
    ¬ ∀ (source : String) (n : Nat) (error : CompileError),
      ((document source).after n).next.1 = .error error → error.cause = .strayBrace →
        error.location.textOf source = "\x7d" := by
  intro h
  exact absurd (h _ 0 _ next_commentBrace rfl) (by decide +kernel)

end PromptTemplate.Lexer
