import PromptTemplate.Proofs.Span.Place
import PromptTemplate.Proofs.Syntax.MapSpans
import PromptTemplate.Proofs.Token.Modes
import PromptTemplate.Proofs.Token.Trivia
import PromptTemplate.Token.Stream

/-!
# The tokens of a text in another position

The lexer looks at the text ahead and at its modes alone. In another position
it takes the same tokens, at the places where these are then. If a text starts
at some position of a document, the columns of its first line go on there, and
those of the others stay as they are.
-/

namespace PromptTemplate

/-- Places of a text and where they are when the text stands elsewhere. -/
structure Motion where
  Positions : Position → Position → Prop
  Spans : Span → Span → Prop
  after : ∀ {p q} c, Positions p q → Positions (p.after c) (q.after c)
  between : ∀ {p q p' q'}, Positions p q → Positions p' q' → Spans (.between p p') (.between q q')

namespace Motion

variable (M : Motion)

structure Tokens (token token' : Token) : Prop where
  kind : token'.kind = token.kind
  span : M.Spans token.span token'.span

structure Errors (error error' : CompileError) : Prop where
  cause : error'.cause = error.cause
  location : M.Spans error.location error'.location

structure Lexers (l l' : Lexer) : Prop where
  rest : l'.rest = l.rest
  modes : l'.modes = l.modes
  configPending : l'.configPending = l.configPending
  position : M.Positions l.position l'.position

inductive Steps : Lexer.Step → Lexer.Step → Prop
  | error {e e' l l'} (h : M.Errors e e') (hl : M.Lexers l l') : Steps (.error e, l) (.error e', l')
  | finished {l l'} (hl : M.Lexers l l') : Steps (.ok none, l) (.ok none, l')
  | token {t t' l l'} (h : M.Tokens t t') (hl : M.Lexers l l') :
    Steps (.ok (some t), l) (.ok (some t'), l')

inductive Stops : Except CompileError Position → Except CompileError Position → Prop
  | error {e e'} (h : M.Errors e e') : Stops (.error e) (.error e')
  | ok {p q} (h : M.Positions p q) : Stops (.ok p) (.ok q)

structure Streams (s s' : TokenStream) : Prop where
  tokens : List.Forall₂ M.Tokens s.tokens s'.tokens
  stop : M.Stops s.stop s'.stop

inductive TextStops : Lexer.TextStop → Lexer.TextStop → Prop
  | atEnd : TextStops .atEnd .atEnd
  | atMarkup : TextStops .atMarkup .atMarkup
  | failure {e e'} (h : M.Errors e e') : TextStops (.failure e) (.failure e')

structure TextRuns (run run' : Lexer.TextRun) : Prop where
  text : run'.text = run.text
  stop : M.TextStops run.stop run'.stop
  position : M.Positions run.position run'.position
  rest : run'.rest = run.rest

variable {M} {l l' : Lexer}

theorem Streams.tokens_eq_map {s s' : TokenStream} {f : Span → Span} (h : M.Streams s s')
    (hf : ∀ {place place'}, M.Spans place place' → place' = f place) :
    s'.tokens = s.tokens.map (Token.mapSpan f) := by
  have htokens := h.tokens
  generalize s.tokens = tokens at *
  generalize s'.tokens = tokens' at *
  clear h
  induction htokens with
  | nil => rfl
  | cons h _ ih =>
    rw [List.map_cons, ← ih]
    exact congrArg (· :: _) (congr (congrArg Token.mk h.kind) (hf h.span))

theorem Streams.kinds {s s' : TokenStream} (h : M.Streams s s') :
    s'.tokens.map Token.kind = s.tokens.map Token.kind := by
  have htokens := h.tokens
  generalize s.tokens = tokens at *
  generalize s'.tokens = tokens' at *
  clear h
  induction htokens with
  | nil => rfl
  | cons h _ ih => rw [List.map_cons, List.map_cons, h.kind, ih]

theorem Streams.stop_ok_iff {s s' : TokenStream} (h : M.Streams s s') :
    (∃ p, s'.stop = .ok p) ↔ ∃ p, s.stop = .ok p := by
  have hstop := h.stop
  generalize s.stop = stop at hstop ⊢
  generalize s'.stop = stop' at hstop ⊢
  cases hstop <;> simp

theorem afterAll {p q : Position} (h : M.Positions p q) (cs : List Char) :
    M.Positions (p.afterAll cs) (q.afterAll cs) := by
  induction cs generalizing p q with
  | nil => exact h
  | cons c cs ih => exact ih (M.after c h)

-- ---------------------------------------------------------------------------
-- Moving on
-- ---------------------------------------------------------------------------

namespace Lexers

theorem advance (h : M.Lexers l l') (count : Nat) :
    M.Lexers (l.advance count) (l'.advance count) where
  rest := congrArg (List.drop count) h.rest
  modes := h.modes
  configPending := h.configPending
  position := by
    simp only [Lexer.advance, h.rest]
    exact afterAll h.position _

theorem upTo (h : M.Lexers l l') (rest : List Char) : M.Lexers (l.upTo rest) (l'.upTo rest) := by
  unfold Lexer.upTo
  rw [h.rest]
  exact h.advance _

theorem skipBlanks (h : M.Lexers l l') : M.Lexers l.skipBlanks l'.skipBlanks := by
  unfold Lexer.skipBlanks
  rw [h.rest]
  exact h.advance _

theorem takeRun_fst (h : M.Lexers l l') (p : Char → Bool) :
    (l'.takeRun p).1 = (l.takeRun p).1 := by
  simp only [Lexer.takeRun, h.rest]

theorem takeRun (h : M.Lexers l l') (p : Char → Bool) :
    M.Lexers (l.takeRun p).2 (l'.takeRun p).2 := by
  simp only [Lexer.takeRun, h.rest]
  exact h.advance _

theorem withModes (h : M.Lexers l l') (modes : List Mode) :
    M.Lexers { l with modes } { l' with modes } :=
  ⟨h.rest, rfl, h.configPending, h.position⟩

theorem enter (h : M.Lexers l l') (mode : Mode) : M.Lexers (l.enter mode) (l'.enter mode) := by
  unfold Lexer.enter
  rw [h.modes]
  exact h.withModes _

theorem leave (h : M.Lexers l l') : M.Lexers l.leave l'.leave := by
  unfold Lexer.leave
  rw [h.modes]
  exact h.withModes _

variable {start start' : Position} (hstart : M.Positions start start')
include hstart

theorem emit (h : M.Lexers l l') (kind : TokenKind) :
    M.Steps (l.emit start kind) (l'.emit start' kind) :=
  .token ⟨rfl, M.between hstart h.position⟩ h

theorem fail (h : M.Lexers l l') (cause : Cause) :
    M.Steps (l.fail start cause) (l'.fail start' cause) :=
  .error ⟨rfl, M.between hstart h.position⟩ h

end Lexers

-- ---------------------------------------------------------------------------
-- Texts
-- ---------------------------------------------------------------------------

theorem TextRuns.push {run run' : Lexer.TextRun} (h : M.TextRuns run run') (c : Char) :
    M.TextRuns (run.push c) (run'.push c) :=
  { h with text := congrArg (c :: ·) h.text }

theorem textRun_moves : (cs : List Char) → ∀ {comment comment' p q},
    Option.Rel M.Positions comment comment' → M.Positions p q →
      M.TextRuns (Lexer.textRun comment p cs) (Lexer.textRun comment' q cs)
  | [], _, _, p, q, hcomment, h => by
    cases hcomment with
    | none => exact ⟨rfl, .atEnd, h, rfl⟩
    | some hstart => exact ⟨rfl, .failure ⟨rfl, M.between hstart h⟩, h, rfl⟩
  | [c], _, _, p, q, hcomment, h => by
    have hnext := M.after c h
    cases hcomment with
    | none =>
      simp only [Lexer.textRun]
      split
      · exact ⟨rfl, .atMarkup, h, rfl⟩
      · exact ⟨rfl, .atEnd, hnext, rfl⟩
    | some hstart => exact ⟨rfl, .failure ⟨rfl, M.between hstart hnext⟩, hnext, rfl⟩
  | c :: d :: cs, _, _, p, q, hcomment, h => by
    have hnext := M.after c h
    have hbeyond := M.after d hnext
    cases hcomment with
    | some hstart =>
      simp only [Lexer.textRun]
      split
      · exact textRun_moves cs .none hbeyond
      · exact textRun_moves (d :: cs) (.some hstart) hnext
    | none =>
      simp only [Lexer.textRun]
      split
      · exact (textRun_moves cs .none hbeyond).push d
      · split
        · exact textRun_moves cs (.some h) hbeyond
        · split
          · exact ⟨rfl, .failure ⟨rfl, M.between h hbeyond⟩, hbeyond, rfl⟩
          · split
            · exact ⟨rfl, .atMarkup, h, rfl⟩
            · exact (textRun_moves (d :: cs) .none hnext).push c

-- ---------------------------------------------------------------------------
-- The modes
-- ---------------------------------------------------------------------------

namespace Lexers

variable (h : M.Lexers l l')
include h

theorem brace : M.Steps l.brace l'.brace := by
  have hopened := h.advance 1
  simp only [Lexer.brace, hopened.rest]
  split
  · simp only [(hopened.advance 1).takeRun_fst]
    exact (((hopened.advance 1).takeRun _).enter _).emit h.position _
  · exact ((hopened.advance 1).enter _).emit h.position _
  · simp only [(hopened.advance 1).takeRun_fst]
    exact (((hopened.advance 1).takeRun _).enter _).emit h.position _
  · exact (hopened.enter _).emit h.position _

theorem closingTag : M.Steps l.closingTag l'.closingTag := by
  have hname := (h.advance 2).takeRun Text.isTagNamePart
  have hblanks := hname.skipBlanks
  simp only [Lexer.closingTag, (h.advance 2).takeRun_fst, hblanks.rest]
  split
  · exact hname.fail h.position _
  · split
    · exact (hblanks.advance 1).emit h.position _
    · exact hblanks.fail h.position _

theorem openingTag : M.Steps l.openingTag l'.openingTag := by
  have hname := (h.advance 1).takeRun Text.isTagNamePart
  simp only [Lexer.openingTag, (h.advance 1).takeRun_fst, hname.rest]
  split
  · exact (hname.enter _).emit h.position _
  · split
    · exact (hname.enter _).emit h.position _
    · exact (hname.advance 1).fail h.position _

end Lexers

/-- Runs that are the same give the same step, also where the texts ahead are not. -/
theorem TextRuns.nextText
    (hrun : M.TextRuns (Lexer.textRun none l.position l.rest)
      (Lexer.textRun none l'.position l'.rest))
    (hmodes : l'.modes = l.modes) (hpending : l'.configPending = l.configPending)
    (hposition : M.Positions l.position l'.position) : M.Steps l.nextText l'.nextText := by
  simp only [Lexer.nextText]
  generalize Lexer.textRun none l.position l.rest = run at *
  generalize Lexer.textRun none l'.position l'.rest = run' at *
  obtain ⟨text, stop, p, _⟩ := run
  obtain ⟨_, stop', q, ahead⟩ := run'
  obtain ⟨rfl, hstop, hahead, rfl⟩ := hrun
  have hhere : M.Lexers { l with position := p, rest := ahead }
      { l' with position := q, rest := ahead } :=
    ⟨rfl, hmodes, hpending, hahead⟩
  cases hstop with
  | failure he => exact .error he hhere
  | atEnd =>
    dsimp only
    split
    · exact .finished hhere
    · exact hhere.emit hposition _
  | atMarkup =>
    dsimp only
    split
    · exact hhere.emit hposition _
    · split
      · exact hhere.brace
      · exact (hhere.advance 1).fail hposition _
      · exact hhere.closingTag
      · exact hhere.openingTag

namespace Lexers

variable (h : M.Lexers l l')
include h

theorem nextText : M.Steps l.nextText l'.nextText := by
  have hrun : M.TextRuns (Lexer.textRun none l.position l.rest)
      (Lexer.textRun none l'.position l'.rest) := by
    rw [h.rest]
    exact textRun_moves l.rest .none h.position
  exact hrun.nextText h.modes h.configPending h.position

theorem attributeValue {start start' : Position} (hstart : M.Positions start start')
    (quote : Char) : M.Steps (l.attributeValue start quote) (l'.attributeValue start' quote) := by
  simp only [Lexer.attributeValue, h.rest]
  split
  · exact (h.advance _).emit hstart _
  · exact (h.advance _).fail hstart _

theorem nextTag : M.Steps l.nextTag l'.nextTag := by
  have hblanks := h.skipBlanks
  have hstart := hblanks.position
  simp only [Lexer.nextTag, hblanks.rest]
  split
  · exact .finished hblanks
  · exact (hblanks.advance 2).leave.emit hstart _
  · exact (hblanks.advance 1).leave.emit hstart _
  · exact (hblanks.advance 1).emit hstart _
  · exact hblanks.brace
  · split
    · exact (hblanks.advance 1).attributeValue hstart _
    · split
      · simp only [hblanks.takeRun_fst]
        exact (hblanks.takeRun _).emit hstart _
      · exact hblanks.fail hstart _

theorem string (quote : Char) : M.Steps (l.string quote) (l'.string quote) := by
  simp only [Lexer.string, h.rest]
  split
  · exact (h.upTo _).emit h.position _
  · exact (h.advance _).fail h.position _

theorem nextExpression (depth : Nat) (outer : List Mode) :
    M.Steps (l.nextExpression depth outer) (l'.nextExpression depth outer) := by
  have hblanks := h.skipBlanks
  have hstart := hblanks.position
  simp only [Lexer.nextExpression, hblanks.rest]
  split
  · exact .finished hblanks
  · exact ((hblanks.advance 1).withModes _).emit hstart _
  · split <;> exact ((hblanks.advance 1).withModes _).emit hstart _
  · split
    · exact hblanks.string _
    · split
      · exact (hblanks.upTo _).emit hstart _
      · split
        · simp only [hblanks.takeRun_fst]
          exact (hblanks.takeRun _).emit hstart _
        · split
          · exact (hblanks.advance _).emit hstart _
          · exact (hblanks.advance _).fail hstart _

/-- After the opening section has been looked for. -/
theorem next (hpending : l.configPending = false) : M.Steps l.next l'.next := by
  have hpending' : l'.configPending = false := h.configPending.trans hpending
  have hready : M.Lexers { l with configPending := false }
      ⟨l.rest, l'.position, l.modes, false⟩ := ⟨rfl, rfl, rfl, h.position⟩
  simp only [Lexer.next, hpending, hpending', Bool.false_eq_true, if_false, h.rest, h.modes]
  split
  · exact .finished hready
  · simp only [Lexer.nextInMode]
    split
    · exact hready.nextText
    · exact hready.nextTag
    · exact hready.nextExpression _ _

end Lexers

-- ---------------------------------------------------------------------------
-- Streams
-- ---------------------------------------------------------------------------

theorem Lexers.streamWithin (budget : Nat) (h : M.Lexers l l') (hpending : l.configPending = false) :
    M.Streams (l.streamWithin budget) (l'.streamWithin budget) := by
  induction budget generalizing l l' with
  | zero => exact ⟨.nil, .ok h.position⟩
  | succ budget ih =>
    have hpending' := Lexer.next_configPending l
    have hstep := h.next hpending
    rw [Lexer.streamWithin, Lexer.streamWithin]
    generalize l.next = step at *
    generalize l'.next = step' at *
    cases hstep with
    | error he => exact ⟨.nil, .error he⟩
    | finished hl => exact ⟨.nil, .ok hl.position⟩
    | token ht hl =>
      have hrest := ih hl hpending'
      exact ⟨.cons ht hrest.tokens, hrest.stop⟩

theorem Lexers.stream (h : M.Lexers l l') (hpending : l.configPending = false) :
    M.Streams l.stream l'.stream := by
  unfold Lexer.stream
  rw [h.rest]
  exact h.streamWithin _ hpending

end Motion

/-- A text that stands somewhere else as a whole. -/
def Relocation.motion (r : Relocation) : Motion where
  Positions p q := q = r.position p
  Spans s s' := s' = r.span s
  after c h := by rw [h, r.after]
  between h h' := by rw [h, h', r.between]

namespace Lexer

theorem stream_of_error {l m : Lexer} {e : CompileError} (h : l.next = (.error e, m)) :
    l.stream = ⟨[], .error e⟩ := by
  rw [stream, streamWithin, h]

theorem stream_of_finished {l m : Lexer} (h : l.next = (.ok none, m)) :
    l.stream = ⟨[], .ok m.position⟩ := by
  rw [stream, streamWithin, h]

theorem rest_of_finished {l m : Lexer} (h : l.next = (.ok none, m)) : m.rest = [] := by
  have hreads := next_reads l
  rw [h] at hreads
  exact hreads.2

/-- Nothing comes after the end. -/
theorem next_of_finished {l m : Lexer} (h : l.next = (.ok none, m)) : m.next = (.ok none, m) := by
  have hpending := next_configPending l
  have hrest := rest_of_finished h
  rw [h] at hpending
  obtain ⟨rest, position, modes, pending⟩ := m
  subst hpending hrest
  rfl

/-- A token leaves less text. -/
theorem length_of_token {l m : Lexer} {token : Token} (h : l.next = (.ok (some token), m)) :
    m.rest.length < l.rest.length := by
  have hreads := next_reads l
  rw [h] at hreads
  obtain ⟨first, hskip, hpass, -⟩ := hreads
  exact (hskip.leads.passes hpass).shorter

theorem leads_of_token {l m : Lexer} {token : Token} (h : l.next = (.ok (some token), m)) :
    l.place.Leads m.place := by
  have hreads := next_reads l
  rw [h] at hreads
  obtain ⟨first, hskip, hpass, -⟩ := hreads
  exact (hskip.leads.passes hpass).leads

theorem suffix_of_token {l m : Lexer} {token : Token} (h : l.next = (.ok (some token), m)) :
    m.rest <:+ l.rest := by
  obtain ⟨taken, htaken, -⟩ := leads_of_token h
  exact ⟨taken, htaken.symm⟩

/-- Budgets above the length of the text make no difference. -/
theorem streamWithin_congr {budget budget' : Nat} {l : Lexer} (h : l.rest.length < budget)
    (h' : l.rest.length < budget') : l.streamWithin budget = l.streamWithin budget' := by
  induction budget generalizing budget' l with
  | zero => exact absurd h (Nat.not_lt_zero _)
  | succ budget ih =>
    obtain ⟨budget', rfl⟩ := Nat.exists_eq_succ_of_ne_zero (Nat.ne_zero_of_lt h')
    rw [streamWithin, streamWithin]
    rcases hstep : l.next with ⟨error | _ | token, m⟩
    · rfl
    · rfl
    · have hshorter := length_of_token hstep
      have hrest : m.streamWithin budget = m.streamWithin budget' := ih (by omega) (by omega)
      simp only [hrest]

theorem stream_of_token {l m : Lexer} {token : Token} (h : l.next = (.ok (some token), m)) :
    l.stream = ⟨token :: m.stream.tokens, m.stream.stop⟩ := by
  have hrest : m.streamWithin l.rest.length = m.stream :=
    streamWithin_congr (length_of_token h) (Nat.lt_succ_self _)
  rw [stream, streamWithin, h]
  simp only [hrest]

end Lexer

theorem Motion.Steps.stream {M : Motion} {l l' : Lexer} (h : M.Steps l.next l'.next) :
    M.Streams l.stream l'.stream := by
  have hpending := Lexer.next_configPending l
  rcases hstep : l.next with ⟨result, m⟩
  rcases hstep' : l'.next with ⟨result', m'⟩
  rw [hstep] at h hpending
  rw [hstep'] at h
  cases h with
  | error he =>
    rw [Lexer.stream_of_error hstep, Lexer.stream_of_error hstep']
    exact ⟨.nil, .error he⟩
  | finished hl =>
    rw [Lexer.stream_of_finished hstep, Lexer.stream_of_finished hstep']
    exact ⟨.nil, .ok hl.position⟩
  | token ht hl =>
    rw [Lexer.stream_of_token hstep, Lexer.stream_of_token hstep']
    have hrest := hl.stream hpending
    exact ⟨.cons ht hrest.tokens, hrest.stop⟩

-- ---------------------------------------------------------------------------
-- A text behind another one
-- ---------------------------------------------------------------------------

def Position.behind (p q : Position) : Position :=
  ⟨p.offset + q.offset, p.line + (q.line - 1),
    if q.line = 1 then p.column + (q.column - 1) else q.column⟩

def Span.behind (p : Position) (s : Span) : Span :=
  ⟨p.offset + s.start, p.offset + s.stop, p.line + (s.line - 1),
    if s.line = 1 then p.column + (s.column - 1) else s.column⟩

/-- Where the span starts. -/
def Span.begin (span : Span) : Position := ⟨span.start, span.line, span.column⟩

variable {p q : Position}

theorem Span.behind_join (p : Position) (first last : Span) :
    (first.join last).behind p = (first.behind p).join (last.behind p) := by
  simp only [join, behind, Nat.add_max_add_left]
  rfl

theorem Position.behind_start (p : Position) : p.behind .start = p := by
  simp [behind, start]

/-- Lines and columns are counted from one. -/
theorem Position.behind_after (hline : 1 ≤ q.line) (hcolumn : 1 ≤ q.column) (c : Char) :
    p.behind (q.after c) = (p.behind q).after c := by
  unfold behind after
  by_cases hc : c = '\n'
  · have hne : q.line + 1 ≠ 1 := by omega
    have hsucc : p.line + (q.line + 1 - 1) = p.line + (q.line - 1) + 1 := by omega
    simp only [if_pos hc, if_neg hne, Nat.add_assoc, hsucc]
  · have hsucc : p.column + (q.column + 1 - 1) = p.column + (q.column - 1) + 1 := by omega
    simp only [if_neg hc, Nat.add_assoc, hsucc]
    split <;> rfl

def Motion.behind (p : Position) : Motion where
  Positions q q' := (1 ≤ q.line ∧ 1 ≤ q.column) ∧ q' = p.behind q
  Spans s s' := s' = s.behind p
  after := by
    rintro q _ c ⟨⟨hline, hcolumn⟩, rfl⟩
    refine ⟨?_, (Position.behind_after hline hcolumn c).symm⟩
    unfold Position.after
    split <;> dsimp only <;> omega
  between := by
    rintro q _ q' _ ⟨-, rfl⟩ ⟨-, rfl⟩
    rfl

/-- What is read behind the start of the text. -/
theorem Lexer.stream_behind (text : String) (p : Position) :
    (Motion.behind p).Streams (expression text).stream
      (⟨text.toList, p, [.expression 0], false⟩ : Lexer).stream :=
  Motion.Lexers.stream ⟨rfl, rfl, rfl, ⟨Nat.le_refl 1, Nat.le_refl 1⟩, p.behind_start.symm⟩ rfl

end PromptTemplate
