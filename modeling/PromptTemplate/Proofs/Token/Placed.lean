import PromptTemplate.Proofs.Span.Place
import PromptTemplate.Token.Stream

/-!
# Where tokens stand

The lexer reads on in its text. So the span of a token or an error lies
between two places that it came to, and a whole stream stays in the text.
-/

namespace PromptTemplate

namespace Lexer

variable {a : Place} {l m n : Lexer}

def place (l : Lexer) : Place := ⟨l.position, l.rest⟩

theorem leads_advance (l : Lexer) (count : Nat) : l.place.Leads (l.advance count).place :=
  Place.leads_drop ..

theorem leads_skipBlanks (l : Lexer) : l.place.Leads l.skipBlanks.place := leads_advance ..

theorem leads_takeRun (l : Lexer) (p : Char → Bool) : l.place.Leads (l.takeRun p).2.place :=
  leads_advance ..

/-- What a step gives stands on the way from `a`, and so does the lexer after it. -/
structure Step.Placed (a : Place) (s : Step) : Prop where
  lexer : a.Leads s.2.place
  token : ∀ token, s.1 = .ok (some token) → token.span.From a
  error : ∀ error, s.1 = .error error → error.location.From a

theorem emit_placed {kind : TokenKind} (hm : a.Leads m.place) (hn : m.place.Leads n.place) :
    Step.Placed a (n.emit m.position kind) where
  lexer := hm.trans hn
  token := by
    rintro _ ⟨⟩
    exact ⟨m.place, n.place, hm, hn, rfl⟩
  error := nofun

theorem fail_placed {cause : Cause} (hm : a.Leads m.place) (hn : m.place.Leads n.place) :
    Step.Placed a (n.fail m.position cause) where
  lexer := hm.trans hn
  token := nofun
  error := by
    rintro _ ⟨⟩
    exact ⟨m.place, n.place, hm, hn, rfl⟩

theorem finished_placed (hm : a.Leads m.place) : Step.Placed a m.finished where
  lexer := hm
  token := nofun
  error := nofun

-- ---------------------------------------------------------------------------
-- Texts
-- ---------------------------------------------------------------------------

def TextRun.place (run : TextRun) : Place := ⟨run.position, run.rest⟩

/-- The run ends on the way from `a`, and so does its error stand there. -/
structure TextRun.Placed (a : Place) (run : TextRun) : Prop where
  finish : a.Leads run.place
  error : ∀ error, run.stop = .failure error → error.location.From a

/-- The comment around a place, if there is one, starts on the way to it. -/
theorem textRun_placed (comment : Option Position) (p : Position) (cs : List Char)
    (hhere : a.Leads ⟨p, cs⟩)
    (hcomment : ∀ start ∈ comment, ∃ ahead, a.Leads ⟨start, ahead⟩ ∧
      Place.Leads ⟨start, ahead⟩ ⟨p, cs⟩) :
    TextRun.Placed a (textRun comment p cs) := by
  have hquiet : ∀ {run : TextRun}, a.Leads run.place → (∀ error, run.stop ≠ .failure error) →
      TextRun.Placed a run := fun hrun hstop => ⟨hrun, fun error h => absurd h (hstop error)⟩
  fun_induction textRun comment p cs with
  | case1 => exact hquiet hhere nofun
  | case2 p start =>
    obtain ⟨ahead, hstart, hp⟩ := hcomment start rfl
    refine ⟨hhere, ?_⟩
    rintro _ ⟨⟩
    exact ⟨_, _, hstart, hp, rfl⟩
  | case3 p c next start =>
    obtain ⟨ahead, hstart, hp⟩ := hcomment start rfl
    have hnext := Place.leads_cons p c []
    refine ⟨hhere.trans hnext, ?_⟩
    rintro _ ⟨⟩
    exact ⟨_, _, hstart, hp.trans hnext, rfl⟩
  | case4 => exact hquiet hhere nofun
  | case5 p c next => exact hquiet (hhere.trans (Place.leads_cons p c [])) nofun
  | case6 p c d cs next beyond start hclose ih =>
    have hbeyond := (Place.leads_cons p c (d :: cs)).trans (Place.leads_cons next d cs)
    exact ih (hhere.trans hbeyond) nofun
  | case7 p c d cs next start hclose ih =>
    have hnext := Place.leads_cons p c (d :: cs)
    refine ih (hhere.trans hnext) fun other hother => ?_
    obtain ⟨ahead, hstart, hp⟩ := hcomment other hother
    exact ⟨ahead, hstart, hp.trans hnext⟩
  | case8 p c d cs next beyond hescape ih =>
    have hbeyond := (Place.leads_cons p c (d :: cs)).trans (Place.leads_cons next d cs)
    obtain ⟨hfinish, herror⟩ := ih (hhere.trans hbeyond) nofun
    exact ⟨hfinish, herror⟩
  | case9 p c d cs next beyond hescape hopen ih =>
    have hbeyond := (Place.leads_cons p c (d :: cs)).trans (Place.leads_cons next d cs)
    refine ih (hhere.trans hbeyond) ?_
    rintro _ ⟨⟩
    exact ⟨c :: d :: cs, hhere, hbeyond⟩
  | case10 p c d cs next beyond hescape hopen hclose =>
    have hbeyond := (Place.leads_cons p c (d :: cs)).trans (Place.leads_cons next d cs)
    refine ⟨hhere.trans hbeyond, ?_⟩
    rintro _ ⟨⟩
    exact ⟨_, _, hhere, hbeyond, rfl⟩
  | case11 => exact hquiet hhere nofun
  | case12 p c d cs next hescape hopen hclose hmarkup ih =>
    obtain ⟨hfinish, herror⟩ := ih (hhere.trans (Place.leads_cons p c (d :: cs))) nofun
    exact ⟨hfinish, herror⟩

-- ---------------------------------------------------------------------------
-- The modes
-- ---------------------------------------------------------------------------

section
variable (hm : a.Leads m.place)
include hm

theorem brace_placed : Step.Placed a m.brace := by
  have hadvance := leads_advance m 1
  unfold brace
  dsimp only
  split
  · exact emit_placed hm (hadvance.trans ((leads_advance _ 1).trans (leads_takeRun _ _)))
  · exact emit_placed hm (hadvance.trans (leads_advance _ 1))
  · exact emit_placed hm (hadvance.trans ((leads_advance _ 1).trans (leads_takeRun _ _)))
  · exact emit_placed hm hadvance

theorem closingTag_placed : Step.Placed a m.closingTag := by
  have hname := (leads_advance m 2).trans (leads_takeRun _ Text.isTagNamePart)
  unfold closingTag
  dsimp only
  split
  · exact fail_placed hm hname
  · split
    · exact emit_placed hm (hname.trans ((leads_skipBlanks _).trans (leads_advance _ 1)))
    · exact fail_placed hm (hname.trans (leads_skipBlanks _))

theorem openingTag_placed : Step.Placed a m.openingTag := by
  have hname := (leads_advance m 1).trans (leads_takeRun _ Text.isTagNamePart)
  unfold openingTag
  dsimp only
  split
  · exact emit_placed hm hname
  · split
    · exact emit_placed hm hname
    · exact fail_placed hm (hname.trans (leads_advance _ 1))

theorem nextText_placed : Step.Placed a m.nextText := by
  have hrun := textRun_placed none m.position m.rest (.refl m.place) nofun
  have hhere : m.place.Leads (place { m with
      position := (textRun none m.position m.rest).position
      rest := (textRun none m.position m.rest).rest }) := hrun.finish
  unfold nextText
  dsimp only
  split
  · rename_i error hstop
    refine ⟨hm.trans hhere, nofun, ?_⟩
    rintro _ ⟨⟩
    exact (hrun.error error hstop).mono hm
  · split
    · exact finished_placed (hm.trans hhere)
    · exact emit_placed hm hhere
  · split
    · exact emit_placed hm hhere
    · split
      · exact brace_placed (hm.trans hhere)
      · exact fail_placed hm (hhere.trans (leads_advance _ 1))
      · exact closingTag_placed (hm.trans hhere)
      · exact openingTag_placed (hm.trans hhere)

omit hm in
theorem attributeValue_placed {start : Lexer} {quote : Char} (hstart : a.Leads start.place)
    (hquote : start.place.Leads m.place) :
    Step.Placed a (m.attributeValue start.position quote) := by
  unfold attributeValue
  dsimp only
  split
  · exact emit_placed hstart (hquote.trans (leads_advance _ _))
  · exact fail_placed hstart (hquote.trans (leads_advance _ _))

theorem nextTag_placed : Step.Placed a m.nextTag := by
  have hstart := hm.trans (leads_skipBlanks m)
  unfold nextTag
  dsimp only
  split
  · exact finished_placed hstart
  · exact emit_placed hstart (leads_advance _ 2)
  · exact emit_placed hstart (leads_advance _ 1)
  · exact emit_placed hstart (leads_advance _ 1)
  · exact brace_placed hstart
  · split
    · exact attributeValue_placed hstart (leads_advance _ 1)
    · split
      · exact emit_placed hstart (leads_takeRun _ _)
      · exact fail_placed hstart (.refl _)

theorem string_placed {quote : Char} : Step.Placed a (m.string quote) := by
  unfold string
  split
  · exact emit_placed hm (leads_advance _ _)
  · exact fail_placed hm (leads_advance _ _)

theorem nextExpression_placed (depth : Nat) (outer : List Mode) :
    Step.Placed a (m.nextExpression depth outer) := by
  have hstart := hm.trans (leads_skipBlanks m)
  unfold nextExpression
  dsimp only
  split
  · exact finished_placed hstart
  · exact emit_placed hstart (leads_advance _ 1)
  · split
    · exact emit_placed hstart (leads_advance _ 1)
    · exact emit_placed hstart (leads_advance _ 1)
  · split
    · exact string_placed hstart
    · split
      · exact emit_placed hstart (leads_advance _ _)
      · split
        · exact emit_placed hstart (leads_takeRun _ _)
        · split
          · exact emit_placed hstart (leads_advance _ _)
          · exact fail_placed hstart (leads_advance _ 1)

theorem config?_placed {step : Step} (h : m.config? = some step) : Step.Placed a step := by
  have hopened := hm.trans (leads_skipBlanks m)
  unfold config? at h
  dsimp only at h
  split at h
  · cases h
  · split at h
    · split at h
      · cases h
        exact fail_placed hopened (leads_advance _ _)
      · cases h
        exact emit_placed hopened (leads_advance _ _)
    · cases h

/-- Whatever the mode, a token or an error stands in what is ahead of the lexer. -/
theorem next_placed : Step.Placed a m.next := by
  obtain ⟨cs, p, modes, pending⟩ := m
  have hready : a.Leads (place ⟨cs, p, modes, false⟩) := hm
  unfold next
  dsimp only
  split
  · rename_i step hstep
    split at hstep
    · exact config?_placed hready hstep
    · cases hstep
  · split
    · exact finished_placed hready
    · rcases modes with _ | ⟨_ | _, outer⟩
      · exact nextText_placed hready
      · exact nextExpression_placed hready _ _
      · exact nextTag_placed hready

end

end Lexer

-- ---------------------------------------------------------------------------
-- Streams
-- ---------------------------------------------------------------------------

/-- `P` holds of the spans of all tokens and of the place where the stream ends. -/
structure TokenStream.Spanned (P : Span → Prop) (s : TokenStream) : Prop where
  tokens : ∀ token ∈ s.tokens, P token.span
  finish : ∀ position, s.stop = .ok position → P (.empty position)
  error : ∀ error, s.stop = .error error → P error.location

namespace Lexer

variable {a : Place} {l : Lexer}

theorem streamWithin_spanned (budget : Nat) (hl : a.Leads l.place) :
    (l.streamWithin budget).Spanned (Span.From a) := by
  induction budget generalizing l with
  | zero =>
    refine ⟨nofun, ?_, nofun⟩
    rintro _ ⟨⟩
    exact Span.From.empty hl
  | succ budget ih =>
    have hnext := next_placed hl
    rw [streamWithin]
    split
    · rename_i error m hstep
      rw [hstep] at hnext
      refine ⟨nofun, nofun, ?_⟩
      rintro _ ⟨⟩
      exact hnext.error error rfl
    · rename_i m hstep
      rw [hstep] at hnext
      refine ⟨nofun, ?_, nofun⟩
      rintro _ ⟨⟩
      exact Span.From.empty hnext.lexer
    · rename_i token m hstep
      rw [hstep] at hnext
      obtain ⟨htokens, hfinish, herror⟩ := ih hnext.lexer
      refine ⟨fun other hother => ?_, hfinish, herror⟩
      rcases List.mem_cons.mp hother with rfl | hother
      · exact hnext.token _ rfl
      · exact htokens other hother

theorem document_spanned (source : String) :
    (document source).stream.Spanned (Span.From (Place.startOf source.toList)) :=
  streamWithin_spanned _ (.refl _)

end Lexer
end PromptTemplate
