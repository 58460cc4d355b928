import PromptTemplate.Proofs.Expr.Hull
import PromptTemplate.Proofs.Token.Cut
import PromptTemplate.Proofs.Token.Moved
import PromptTemplate.Proofs.Token.Solid

/-!
# The text under a span

The text that a span of a document covers is read as the tokens that the span
goes over, if these are words of one expression and close their own braces
(`slice_stream`).
-/

namespace PromptTemplate

/-- What an expression starts with stands in braces. -/
theorem Shift.of_starts {modes modes' : List Mode} {kind : TokenKind} (h : Shift modes kind modes')
    (hkind : Phrase.starts kind) : ∃ depth outer, modes = .expression depth :: outer := by
  cases h with
  | text | tagClose | tagOpen => cases hkind
  | word h | tagEnd h | opening h =>
    cases kind with
    | symbol s => cases s <;> first | cases h; done | cases hkind
    | number | string | identifier => cases h
    | _ => cases hkind
  | operand | braceOpen | braceClose | closing => exact ⟨_, _, rfl⟩

namespace Lexer

variable {cs : List Char} {p : Position} {depth : Nat} {outer : List Mode} {token : Token}
  {tokens more : List Token} {l m n : Lexer}

-- ---------------------------------------------------------------------------
-- Where tokens start and end
-- ---------------------------------------------------------------------------

/-- The steps that a stream comes from. -/
theorem emits_of_stream (h : l.stream.tokens = tokens ++ more) :
    ∃ m, Emits l tokens m ∧ m.stream.tokens = more := by
  induction tokens generalizing l with
  | nil => exact ⟨l, .nil, h⟩
  | cons token tokens ih =>
    rcases hnext : l.next with ⟨e | _ | found, m⟩
    · rw [stream_of_error hnext] at h
      cases h
    · rw [stream_of_finished hnext] at h
      cases h
    · rw [stream_of_token hnext] at h
      obtain ⟨rfl, htokens⟩ := List.cons.inj h
      obtain ⟨n, hemits, hmore⟩ := ih htokens
      exact ⟨n, .cons hnext (length_of_token hnext) hemits, hmore⟩

theorem Emits.split (h : Emits l (tokens ++ more) n) : ∃ m, Emits l tokens m ∧ Emits m more n := by
  induction tokens generalizing l with
  | nil => exact ⟨l, .nil, h⟩
  | cons token tokens ih =>
    cases h with
    | cons first less rest =>
      obtain ⟨m, hm, hmore⟩ := ih rest
      exact ⟨m, .cons first less hm, hmore⟩

/-- The start of an expression is read in braces. -/
theorem ready_of_starts (h : l.next = (.ok (some token), m)) (hkind : Phrase.starts token.kind) :
    (∃ depth outer, l.modes = .expression depth :: outer) ∧ l.ready.next = (.ok (some token), m) := by
  obtain ⟨-, hconfig⟩ | hready := next_cases l
  · obtain ⟨body, hbody⟩ := (config?_opens rfl hconfig).config token (by rw [h])
    rw [hbody] at hkind
    cases hkind
  · rw [hready] at h
    have hturns := next_turns (m := l.ready) rfl
    rw [h] at hturns
    exact ⟨(hturns.shift token rfl).of_starts hkind, h⟩

theorem word_span {c : Char} (hblank : Text.isBlank c = false)
    (h : (⟨c :: cs, p, .expression depth :: outer, false⟩ : Lexer).next = (.ok (some token), m)) :
    token.span = .between p m.position := by
  by_cases hopen : c = '{'
  · subst hopen
    cases h
    rfl
  · by_cases hclose : c = '}'
    · subst hclose
      cases depth <;> cases h <;> rfl
    · rw [next_word hblank hopen hclose] at h
      dsimp only [string] at h
      (repeat' split at h) <;> cases h <;> rfl

/-- A token of an expression starts behind the blanks. -/
theorem span_of_token
    (h : (⟨cs, p, .expression depth :: outer, false⟩ : Lexer).next = (.ok (some token), m)) :
    ∃ gap c rest, cs = gap ++ c :: rest ∧ Text.isBlank c = false ∧
      token.span = .between (p.afterAll gap) m.position ∧
      (⟨c :: rest, p.afterAll gap, .expression depth :: outer, false⟩ : Lexer).next =
        (.ok (some token), m) := by
  induction cs generalizing p with
  | nil => cases h
  | cons c cs ih =>
    by_cases hblank : Text.isBlank c
    · obtain ⟨gap, d, rest, rfl, hd, hspan, hnext⟩ := ih (next_of_blank hblank h)
      exact ⟨c :: gap, d, rest, rfl, hd, hspan, hnext⟩
    · have hblank : Text.isBlank c = false := by simpa using hblank
      exact ⟨[], c, cs, rfl, hblank, word_span hblank h, h⟩

theorem Emits.last_stop (h : Emits l tokens n) (hlast : tokens.getLast? = some token) :
    token.span.stop = n.position.offset := by
  induction h with
  | nil => cases hlast
  | @cons l m n first tokens hfirst _ more ih =>
    cases more with
    | nil =>
      have hreads := next_reads l
      rw [hfirst] at hreads
      obtain ⟨place, -, -, hspan⟩ := hreads
      have hlast : first = token := Option.some.inj hlast
      rw [← hlast, hspan]
      rfl
    | cons => exact ih hlast

/-- Among the words of an expression the braces alone change the mode. -/
theorem Emits.modes {k d d' : Nat} (h : Emits l tokens n) (hpending : l.configPending = false)
    (hmodes : l.modes = .expression (k + d) :: outer)
    (hkinds : ∀ token ∈ tokens, token.kind ≠ .mustacheClose)
    (hbraces : Bracket.brace.depth? d tokens = some d') :
    n.modes = .expression (k + d') :: outer ∧ n.configPending = false := by
  induction h generalizing d with
  | nil =>
    cases hbraces
    exact ⟨hmodes, hpending⟩
  | @cons l m n token tokens first less more ih =>
    obtain ⟨cs, p, modes, pending⟩ := l
    subst hpending hmodes
    obtain ⟨hkind, hkinds⟩ := List.forall_mem_cons.1 hkinds
    rw [← List.singleton_append, Bracket.depth?_append, Option.bind_eq_some_iff] at hbraces
    obtain ⟨e, hbrace, hbraces⟩ := hbraces
    have hrecast := next_recast outer hkind hbrace first
    rw [first] at hrecast
    generalize Lexer.next _ = s at hrecast
    cases hrecast
    exact ih rfl rfl hkinds hbraces

/-- Words of an expression end with something other than a blank. -/
theorem Emits.solid {d d' : Nat} (h : Emits l tokens n) (htokens : tokens ≠ [])
    (hpending : l.configPending = false) (hmodes : l.modes = .expression d :: outer)
    (hkinds : ∀ token ∈ tokens, token.kind ≠ .mustacheClose)
    (hbraces : Bracket.brace.depth? d tokens = some d') : Solid l.rest n.rest := by
  obtain ⟨init, token, rfl⟩ : ∃ init token, tokens = init ++ [token] :=
    ⟨_, _, (List.dropLast_concat_getLast htokens).symm⟩
  obtain ⟨m, hinit, hlast⟩ := h.split
  rw [Bracket.depth?_append, Option.bind_eq_some_iff] at hbraces
  obtain ⟨e, hbraces, -⟩ := hbraces
  obtain ⟨hmodes, hpending⟩ := hinit.modes (k := 0) (d := d) hpending (by rwa [Nat.zero_add])
    (List.forall_mem_append.1 hkinds).1 hbraces
  obtain ⟨taken, htaken, -⟩ := hinit.leads
  obtain ⟨cs, p, modes, pending⟩ := m
  dsimp only at hmodes hpending
  subst hmodes hpending
  cases hlast with
  | cons hnext _ hend =>
    cases hend
    have hsolid := (solid_of_token hnext).append taken
    rwa [← show l.rest = taken ++ cs from htaken] at hsolid

-- ---------------------------------------------------------------------------
-- The text that a span covers
-- ---------------------------------------------------------------------------

/-- The text has no blanks around it, and is read as these tokens. -/
def ReadsTo (text : String) (p : Position) (tokens : List Token) : Prop :=
  Text.trim text = text ∧
    ∃ q, (⟨text.toList, p, [.expression 0], false⟩ : Lexer).stream = ⟨tokens, .ok q⟩

theorem slice_stream {source : String} {span : Span} (hl : (Place.startOf source.toList).Leads l.place)
    (hmodes : l.modes = .expression depth :: outer) (hpending : l.configPending = false)
    (h : Emits l tokens n) (hover : span.IsOver tokens)
    (hkinds : ∀ token ∈ tokens, token.kind ≠ .mustacheClose)
    (hbraces : Bracket.brace.depth? 0 tokens = some 0) :
    ReadsTo (span.textOf source) span.begin tokens := by
  obtain ⟨cs, p, modes, pending⟩ := l
  dsimp only at hmodes hpending
  subst hmodes hpending
  obtain ⟨first, last, hfirst, hlast, rfl⟩ := hover
  have hstop := h.last_stop hlast
  cases h with
  | nil => cases hfirst
  | @cons _ m _ _ tokens hnext _ more =>
    obtain rfl := Option.some.inj hfirst
    obtain ⟨gap, c, rest, rfl, hc, hspan, hnext⟩ := span_of_token hnext
    have hgap : (Place.startOf source.toList).Leads ⟨p.afterAll gap, c :: rest⟩ :=
      hl.trans ⟨gap, rfl, rfl⟩
    have hemits : Emits ⟨c :: rest, p.afterAll gap, .expression depth :: outer, false⟩ (_ :: tokens) n :=
      .cons hnext (length_of_token hnext) more
    obtain ⟨text, htext, hposition⟩ : ∃ text, c :: rest = text ++ n.rest ∧ _ := hemits.leads
    have hbytes := Place.bytesBetween_leads (c := n.place) hgap htext hposition
    rw [htext] at hemits
    have hslice : ({ Span.between (p.afterAll gap) m.position with stop := last.span.stop }).textOf source =
        String.ofList text := by
      rw [hstop]
      exact congrArg String.ofList hbytes
    rw [hspan, hslice]
    refine ⟨?_, n.position, ?_⟩
    · have hdepth := Bracket.depth?_add hbraces depth
      rw [Nat.zero_add] at hdepth
      have hsolid := hemits.solid (List.cons_ne_nil _ _) rfl rfl hkinds hdepth
      exact hsolid.trim htext hc
    · have hcut := emits_cut (k := depth) [] hemits rfl hkinds hbraces
      rw [String.toList_ofList]
      exact hcut.stream (n := ⟨[], n.position, [.expression 0], false⟩) rfl

/-- The text under a part of an expression in a document. -/
theorem phrase_slice {source : String} {span : Span} {front ts back core : List Token} {e : Expr}
    (hsource : (document source).stream.tokens = front ++ (ts ++ back)) (h : Phrase 0 ts e)
    (hcore : core <:+: ts) (hover : span.IsOver core) (hbraces : Bracket.brace.depth? 0 core = some 0) :
    ReadsTo (span.textOf source) span.begin core := by
  have hkinds : ∀ token ∈ ts, token.kind ≠ .mustacheClose := by
    intro token htoken hkind
    have hword := h.nests.words token htoken
    rw [hkind] at hword
    cases hword
  obtain ⟨l, hfront, hl⟩ := emits_of_stream hsource
  obtain ⟨n, hts, -⟩ := emits_of_stream hl
  have hstart : (Place.startOf source.toList).Leads l.place := hfront.leads
  obtain ⟨token, rest, rfl, hstarts, -⟩ := h.first
  cases hts with
  | cons hnext less hrest =>
    obtain ⟨⟨depth, outer, hmodes⟩, hready⟩ := ready_of_starts hnext hstarts
    have hts : Emits l.ready (token :: rest) n := .cons hready less hrest
    obtain ⟨before, behind, hsplit⟩ := hcore
    rw [← hsplit] at hts hkinds
    obtain ⟨m, hm, -⟩ := hts.split
    obtain ⟨m', hbefore, hcore⟩ := hm.split
    have hnests := h.nests.depth .brace 0
    rw [← hsplit, List.append_assoc, Bracket.depth?_append, Option.bind_eq_some_iff] at hnests
    obtain ⟨opened, hopened, -⟩ := hnests
    rw [List.forall_mem_append, List.forall_mem_append] at hkinds
    obtain ⟨hmodes', hpending⟩ := hbefore.modes (k := depth) (d := 0) rfl hmodes hkinds.1.1 hopened
    exact slice_stream (hstart.trans hbefore.leads) hmodes' hpending hcore hover hkinds.1.2 hbraces

end Lexer
end PromptTemplate
