import PromptTemplate.Proofs.Document.Comment
import PromptTemplate.Proofs.Parser.Shares
import PromptTemplate.Proofs.Syntax.Unclosed
import PromptTemplate.Proofs.Token.Slice

/-!
# Documents that begin with the same text

The lexer takes the same tokens off the text that two documents begin with, up
to the last text in it: that one may go on behind, and nothing else does
(`Emits.shared`). So what stands in front of markup is a row of tokens that both
documents have, and texts (`Front`).
-/

namespace PromptTemplate.Lexer

variable {u v : String} {x w a b : List Char} {p : Position} {token : Token} {tokens : List Token}
  {l m : Lexer}

-- ---------------------------------------------------------------------------
-- The same text in front
-- ---------------------------------------------------------------------------

/-- The next item starts with its brace or angle. -/
theorem mem_opening (hkind : token.kind.isText = false)
    (h : (⟨x ++ a, p, [], false⟩ : Lexer).next = (.ok (some token), m))
    (hm : a.length ≤ m.rest.length) : '{' ∈ x ∨ '<' ∈ x := by
  cases taken_of_token h with
  | text _ _ htext => cases hkind.symm.trans htext
  | markup comments rest _ hx hrest _ hopen hnext =>
    have hshorter := Nat.lt_of_le_of_lt hm (length_of_token hnext)
    obtain ⟨y, rfl, rfl⟩ := split_of_length hshorter.le hx
    obtain ⟨c, more, hc, hmarkup⟩ := hrest
    cases y with
    | nil => exact absurd hshorter (Nat.lt_irrefl _)
    | cons d y =>
      obtain ⟨rfl, -⟩ := List.cons.inj hc
      rcases hmarkup with rfl | rfl | ⟨rfl, -⟩
      · exact .inl (by simp)
      · exact absurd rfl hopen
      · exact .inr (by simp)

/-- A row of tokens ends with something other than a text. -/
def EndsWithMarkup (tokens : List Token) : Prop := ∀ token ∈ tokens.getLast?, token.kind.isText = false

theorem EndsWithMarkup.tail (h : EndsWithMarkup (token :: tokens)) : EndsWithMarkup tokens := by
  intro last hlast
  exact h last (by rw [List.getLast?_cons, hlast]; rfl)

theorem EndsWithMarkup.ne_nil (h : EndsWithMarkup (token :: tokens)) (hkind : token.kind.isText) :
    tokens ≠ [] := by
  rintro rfl
  rw [h token rfl] at hkind
  cases hkind

section
variable (h : Emits m tokens l) (hpending : m.configPending = false) (hmodes : l.modes = [])
  (hlast : EndsWithMarkup tokens) (hl : l.rest = w ++ a) (hm : m.rest = x ++ a)
include h hpending hmodes hlast hl hm

/-- What is behind the tokens does not matter. -/
theorem Emits.before (b : List Char) :
    Emits { m with rest := x ++ b } tokens { l with rest := w ++ b } := by
  induction h generalizing x with
  | nil =>
    obtain rfl := List.append_cancel_right (hl.symm.trans hm)
    exact .nil
  | @cons m m' l token tokens first less more ih =>
    obtain ⟨z, y, rfl, hy⟩ := more.split_rest first hl hm
    have hturns := next_turns hpending
    rw [first] at hturns
    have hshift := hturns.shift token rfl
    have hpending' := hturns.pending
    obtain ⟨cs, p, modes, pending⟩ := m
    dsimp only at hpending hm hturns hshift
    subst hpending hm
    rw [List.append_assoc] at first
    -- a text is not the last token, so the markup behind it is there still
    have hmarkup (hkind : token.kind.isText) :
        y ≠ [] ∧ (AtMarkup (y ++ a) → AtMarkup (y ++ b)) := by
      obtain rfl := hshift.of_text hkind
      have hmodes' := hshift.behind_text hkind
      have hne := hlast.ne_nil hkind
      cases more with
      | nil => exact absurd rfl hne
      | @cons _ m'' _ token' tokens first' less' more' =>
        have hlength : a.length ≤ m''.rest.length := by
          have hsuffix := more'.suffix.length_le
          rw [hl, List.length_append] at hsuffix
          omega
        obtain ⟨cs', p', modes', pending'⟩ := m'
        dsimp only at hy hpending' hmodes'
        subst hy hpending' hmodes'
        refine ⟨?_, fun hmarkup => markup_shared hmarkup first' hlength b⟩
        rintro rfl
        exact absurd (length_of_token first') (Nat.not_lt.2 hlength)
    have hfront (hkind : token.kind.isClosing = false) : y ≠ [] := by
      by_cases htext : token.kind.isText
      · exact (hmarkup htext).1
      · rintro rfl
        exact more.not_empty hmodes hl hy hshift hkind htext
    have hbrace (depth : Nat) (outer : List Mode) (hmodes' : modes = .expression depth :: outer)
        (hkind : token.kind.isOperand) : '}' ∈ y := by
      subst hmodes'
      exact more.mem_brace hmodes hl hpending' (hshift.unique (.operand hkind)) hy
    have hnext := @next_before z y p token m' a b modes first hy (fun h => (hmarkup h).2)
      hfront hbrace
    have hrest := ih hpending' hmodes hlast.tail hl hy
    rw [List.append_assoc]
    exact .cons hnext (length_of_token hnext) hrest

/-- In them markup opens. -/
theorem Emits.mem_opening (htext : m.modes = []) (htokens : tokens ≠ []) : '{' ∈ x ∨ '<' ∈ x := by
  induction h generalizing x with
  | nil => exact absurd rfl htokens
  | @cons m m' l token tokens first less more ih =>
    obtain ⟨z, y, rfl, hy⟩ := more.split_rest first hl hm
    have hturns := next_turns hpending
    rw [first] at hturns
    have hshift := hturns.shift token rfl
    obtain ⟨cs, p, modes, pending⟩ := m
    dsimp only at hpending hm htext hshift
    subst hpending hm htext
    by_cases hkind : token.kind.isText
    · have hopening := ih hturns.pending hmodes hlast.tail hl hy (hshift.behind_text hkind)
        (hlast.ne_nil hkind)
      exact hopening.imp (List.mem_append_right _) (List.mem_append_right _)
    · refine Lexer.mem_opening (by simpa using hkind) first ?_
      rw [hy, List.length_append]
      exact Nat.le_add_left ..

end

/-- Documents that begin with the same text. -/
theorem Emits.shared (h : Emits (document (u ++ v)) tokens l) (hmodes : l.modes = [])
    (htokens : tokens ≠ []) (hlast : EndsWithMarkup tokens) (hl : l.rest = w ++ v.toList)
    (hv : v.toList ≠ []) (v' : String) : ∃ l', Emits (document (u ++ v')) tokens l' := by
  have htext (v : String) : (document (u ++ v)).ready = ⟨u.toList ++ v.toList, .start, [], false⟩ := by
    simp [document, ready]
  cases hconfig : (document (u ++ v)).ready.config? with
  | none =>
    have hnext : (document (u ++ v)).ready.next = (document (u ++ v)).next :=
      ((next_cases _).resolve_left fun h => by rw [hconfig] at h; cases h.2).symm
    have hready : Emits (document (u ++ v)).ready tokens l := h.replace htokens hnext (Nat.le_refl _)
    obtain ⟨c, hc, hblank, hdash⟩ : ∃ c ∈ u.toList, Text.isBlank c = false ∧ c ≠ '-' := by
      obtain hc | hc := hready.mem_opening rfl hmodes hlast hl (congrArg Lexer.rest (htext v)) rfl htokens
      · exact ⟨_, hc, by decide, by decide⟩
      · exact ⟨_, hc, by decide, by decide⟩
    have hconfig' : (document (u ++ v')).ready.config? = none := by
      rw [htext] at hconfig ⊢
      exact config?_none_behind hc hblank hdash hconfig _
    have hnext' : (document (u ++ v')).next = (document (u ++ v')).ready.next :=
      (next_cases _).resolve_left fun h => by rw [hconfig'] at h; cases h.2
    have hbefore := hready.before rfl hmodes hlast hl (congrArg Lexer.rest (htext v)) v'.toList
    rw [htext v, ← htext v'] at hbefore
    exact ⟨_, hbefore.replace htokens hnext' (Nat.le_refl _)⟩
  | some step =>
    have hnext := next_of_config? hconfig
    have hopens := config?_opens rfl hconfig
    cases h with
    | nil => exact absurd rfl htokens
    | @cons _ m _ token tokens first less more =>
      rw [first] at hnext
      obtain rfl := hnext.symm
      obtain ⟨x, y, hu, hy⟩ := more.split_rest first hl (String.toList_append ..)
      rw [htext, hu, List.append_assoc] at hconfig
      have hconfig' := config?_some hconfig hy (.inl (by simp [hv])) (y ++ v'.toList)
      rw [← List.append_assoc, ← hu, ← htext v'] at hconfig'
      have hfirst := next_of_config? hconfig'
      exact ⟨_, .cons hfirst (length_of_token hfirst)
        (more.before hopens.pending hmodes hlast.tail hl hy _)⟩

/-- What is left of `u ++ v` behind `u`, if the lexer is in text there. -/
def behind (u v : String) : TokenStream :=
  (⟨v.toList, Position.start.afterAll u.toList, [], false⟩ : Lexer).stream

-- ---------------------------------------------------------------------------
-- Tokens in front
-- ---------------------------------------------------------------------------

theorem Emits.stream_eq (h : Emits l tokens m) : l.stream = m.stream.prepend tokens := by
  induction h with
  | nil => rfl
  | cons first _ _ ih =>
    rw [stream_of_token first, ih]
    rfl

theorem Emits.toText (h : Emits l tokens m) (hpending : l.configPending = false)
    (hmodes : m.modes = []) : ToText l.modes tokens := by
  induction h with
  | nil => exact hmodes
  | cons first _ _ ih =>
    have hturns := next_turns hpending
    rw [first] at hturns
    exact ⟨_, hturns.shift _ rfl, ih hturns.pending hmodes⟩

/-- A document starts with a section or in text. -/
theorem Emits.opening {source : String} {token : Token}
    (h : Emits (document source) (token :: tokens) l) (hmodes : l.modes = []) :
    (∃ body place, token = ⟨.config body, place⟩) ∧ ToText [] tokens ∨
      (∀ body, token.kind ≠ .config body) ∧ ToText [] (token :: tokens) := by
  cases h with
  | @cons _ m _ _ _ first less more =>
    have hpending : m.configPending = false := by
      have hpending := next_configPending (document source)
      rwa [first] at hpending
    have htext := more.toText hpending hmodes
    obtain ⟨-, hconfig⟩ | hready := next_cases (document source)
    · rw [first] at hconfig
      have hopens := config?_opens rfl hconfig
      obtain ⟨body, hkind⟩ := hopens.config token rfl
      obtain ⟨kind, place⟩ := token
      obtain rfl : kind = .config body := hkind
      obtain htext' : m.modes = [] := hopens.stay
      exact .inl ⟨⟨body, place, rfl⟩, htext' ▸ htext⟩
    · have hturns := next_turns (m := (document source).ready) rfl
      rw [← hready, first] at hturns
      have hshift : Shift [] token.kind m.modes := hturns.shift _ rfl
      exact .inr ⟨fun body hkind => Shift.not_config (hkind ▸ hshift), _, hshift, htext⟩

/-- An opening brace is a token. -/
theorem behind_ne_nil {more : List Char} (h : v.toList = '{' :: more) : (behind u v).tokens ≠ [] := by
  have hbrace (l : Lexer) : ∃ token m, l.brace = (.ok (some token), m) := by
    unfold brace
    dsimp only
    split <;> exact ⟨_, _, rfl⟩
  obtain ⟨token, m, hnext⟩ := hbrace ⟨'{' :: more, Position.start.afterAll u.toList, [], false⟩
  rw [behind, h, stream_of_token ((next_brace more).trans hnext)]
  exact List.cons_ne_nil _ _

/-- Each row of tokens ends with markup and texts behind it. -/
theorem exists_texts_behind (tokens : List Token) : ∃ front texts, tokens = front ++ texts ∧
    EndsWithMarkup front ∧ ∀ token ∈ texts, token.kind.isText := by
  induction tokens using List.reverseRecOn with
  | nil => exact ⟨[], [], rfl, nofun, nofun⟩
  | append_singleton tokens last ih =>
    by_cases hlast : last.kind.isText
    · obtain ⟨front, texts, rfl, hfront, htexts⟩ := ih
      refine ⟨front, texts ++ [last], List.append_assoc .., hfront, ?_⟩
      exact List.forall_mem_append.2 ⟨htexts, List.forall_mem_singleton.2 hlast⟩
    · refine ⟨tokens ++ [last], [], (List.append_nil _).symm, ?_, nofun⟩
      intro token htoken
      rw [List.getLast?_concat] at htoken
      cases htoken
      simpa using hlast

theorem Emits.texts_modes (h : Emits l tokens m) (htexts : ∀ token ∈ tokens, token.kind.isText)
    (hpending : l.configPending = false) (hmodes : m.modes = []) : l.modes = [] := by
  cases h with
  | nil => exact hmodes
  | cons first =>
    have hturns := next_turns hpending
    rw [first] at hturns
    exact (hturns.shift _ rfl).of_text (htexts _ List.mem_cons_self)

theorem Emits.configPending (h : Emits l tokens m) (htokens : tokens ≠ []) :
    m.configPending = false := by
  induction h with
  | nil => exact absurd rfl htokens
  | @cons l m n token tokens first _ more ih =>
    cases more with
    | nil =>
      have hpending := next_configPending l
      rwa [first] at hpending
    | cons => exact ih (List.cons_ne_nil _ _)

theorem stream_congr {l' : Lexer} (h : l.next = l'.next) : l.stream = l'.stream := by
  rcases hnext : l'.next with ⟨error | _ | token, m⟩
  · rw [stream_of_error hnext, stream_of_error (h.trans hnext)]
  · rw [stream_of_finished hnext, stream_of_finished (h.trans hnext)]
  · rw [stream_of_token hnext, stream_of_token (h.trans hnext)]

/-- The tokens in front of `v`, where markup starts: up to the last one that is no text, and texts. -/
structure Front (u v : String) (tokens texts : List Token) (l : Lexer) : Prop where
  emits : Emits (document (u ++ v)) tokens l
  modes : l.modes = []
  rest : ∃ w, l.rest = w ++ v.toList
  last : EndsWithMarkup tokens
  inText : ∀ token ∈ texts, token.kind.isText
  stream : l.stream = (behind u v).prepend texts
  plain : tokens = [] → (document (u ++ v)).ready.config? = none

theorem TextAt.stream {v : String} (hplace : TextAt u v) (hmarkup : AtMarkup v.toList)
    (hopen : v.toList.head? ≠ some '}') : ∃ tokens l, Emits (document (u ++ v)) tokens l ∧
      l.modes = [] ∧ (∃ w, l.rest = w ++ v.toList) ∧ (l.configPending → l.ready.config? = none) ∧
      ∃ texts, (∀ token ∈ texts, token.kind.isText) ∧ l.stream = (behind u v).prepend texts := by
  obtain ⟨l, w, text, hcomes, hl, hw⟩ := hplace
  obtain ⟨tokens, hemits⟩ := hcomes.emits
  refine ⟨tokens, l, hemits, hcomes.modes, ⟨w, hl⟩, hcomes.plain, ?_⟩
  have hposition : l.position.afterAll w = Position.start.afterAll u.toList := by
    obtain ⟨taken, htaken, hposition⟩ := hemits.leads
    have hu : u.toList ++ v.toList = taken ++ w ++ v.toList := by
      rw [List.append_assoc, ← hl, ← String.toList_append]
      exact htaken
    rw [List.append_cancel_right hu, Position.afterAll_append]
    exact congrArg (Position.afterAll · w) hposition
  have hready : l.ready = ⟨w ++ v.toList, l.position, [], false⟩ := by
    obtain ⟨rest, position, modes, pending⟩ := l
    obtain rfl : modes = [] := hcomes.modes
    obtain rfl : rest = w ++ v.toList := hl
    rfl
  have hnext := next_of_plain hcomes.plain
  rw [hready] at hnext
  by_cases htext : text = []
  · subst htext
    rw [next_over_comments hmarkup hw hopen, hposition] at hnext
    exact ⟨[], nofun, stream_congr hnext⟩
  · rw [next_over_text hmarkup hw htext, hposition] at hnext
    refine ⟨[_], ?_, stream_of_token hnext⟩
    rintro _ (_ | ⟨_, ⟨⟩⟩)
    rfl

theorem TextAt.front (hplace : TextAt u v) (hmarkup : AtMarkup v.toList)
    (hopen : v.toList.head? ≠ some '}') : ∃ tokens texts l, Front u v tokens texts l := by
  obtain ⟨tokens, l, hemits, hmodes, ⟨w, hl⟩, hplain, more, hmore, hstream⟩ :=
    hplace.stream hmarkup hopen
  obtain ⟨front, texts, rfl, hfront, htexts⟩ := exists_texts_behind tokens
  obtain ⟨m, hfirst, hrest⟩ := hemits.split
  obtain ⟨before, hbefore⟩ := hrest.suffix
  refine ⟨front, texts ++ more, m, hfirst, ?_, ⟨before ++ w, ?_⟩, hfront,
    List.forall_mem_append.2 ⟨htexts, hmore⟩, ?_, ?_⟩
  · by_cases hnil : front = []
    · subst hnil
      cases hfirst
      rfl
    · exact hrest.texts_modes htexts (hfirst.configPending hnil) hmodes
  · rw [← hbefore, hl, List.append_assoc]
  · rw [hrest.stream_eq, hstream]
    simp [TokenStream.prepend]
  · rintro rfl
    cases hfirst
    cases hrest with
    | nil => exact hplain rfl
    | @cons _ _ _ token _ first =>
      -- a section would have been the first token
      by_contra hconfig
      obtain ⟨step, hconfig⟩ := Option.ne_none_iff_exists'.1 hconfig
      have hopens := config?_opens rfl hconfig
      rw [← next_of_config? hconfig, first] at hopens
      obtain ⟨body, hkind⟩ := hopens.config token rfl
      have htext := htexts token List.mem_cons_self
      rw [hkind] at htext
      cases htext

end PromptTemplate.Lexer
