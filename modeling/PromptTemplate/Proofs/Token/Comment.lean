import PromptTemplate.Proofs.Token.Ahead

/-!
# A comment in a text

The lexer takes the same tokens off a text and off the same text with a comment
in it. In front of the comment it does not look far enough ahead to see it,
then a text goes over the comment, and behind it what is left is the same.
-/

namespace PromptTemplate

/-- Texts in places that do not matter. -/
def Motion.anywhere : Motion where
  Positions _ _ := True
  Spans _ _ := True
  after _ _ := trivial
  between _ _ := trivial

/-- A token that leads back to text is one, or its last character tells where it ends. -/
theorem Shift.to_text {modes : List Mode} {kind : TokenKind} (h : Shift modes kind []) :
    kind.isText ∨ kind.isClosing := by
  generalize hmodes : ([] : List Mode) = modes' at h
  cases h with
  | text => exact .inl rfl
  | tagClose | closing => exact .inr rfl
  | tagEnd h =>
    cases kind <;> first | exact .inr rfl | cases h
  | tagOpen | word | opening | operand | braceOpen | braceClose => cases hmodes

theorem Shift.of_text {modes modes' : List Mode} {kind : TokenKind} (h : Shift modes kind modes')
    (hkind : kind.isText) : modes = [] := by
  cases kind with
  | text =>
    cases h with
    | text => rfl
    | word h | tagEnd h | opening h | operand h => cases h
  | _ => cases hkind

theorem Shift.behind_text {modes : List Mode} {kind : TokenKind} (h : Shift [] kind modes)
    (hkind : kind.isText) : modes = [] := by
  cases kind with
  | text => exact h.unique .text
  | _ => cases hkind

namespace Lexer

variable {x y v : List Char} {p q : Position} {depth : Nat} {outer : List Mode} {token : Token}
  {tokens : List Token} {l m : Lexer}

theorem Step.Matches.of_rest {a b : List Char} {s s' : Step} (h : Step.Matches a b s s')
    (hs : s = (.ok (some token), m)) (hrest : m.rest = y ++ a) :
    s' = (.ok (some token), { m with rest := y ++ b }) := by
  cases h with
  | intro _ x q modes =>
    cases hs
    obtain rfl := List.append_cancel_right hrest
    rfl

-- ---------------------------------------------------------------------------
-- Ahead of the end of a run
-- ---------------------------------------------------------------------------

theorem closing_rest {cs : List Char} (hkind : token.kind = .mustacheClose)
    (h : (⟨cs, p, .expression depth :: outer, false⟩ : Lexer).next = (.ok (some token), m)) :
    ∃ x, cs = x ++ '}' :: m.rest := by
  induction cs generalizing p with
  | nil => cases h
  | cons c cs ih =>
    by_cases hblank : Text.isBlank c
    · obtain ⟨x, rfl⟩ := ih (next_of_blank hblank h)
      exact ⟨c :: x, rfl⟩
    · by_cases hopen : c = '{'
      · subst hopen
        cases h
        cases hkind
      · by_cases hclose : c = '}'
        · subst hclose
          cases depth <;> cases h <;> exact ⟨[], rfl⟩
        · have hoperand := word_isOperand (by simpa using hblank) hopen hclose h
          rw [hkind] at hoperand
          cases hoperand

/-- From braces one gets to text over a closing brace. -/
theorem Emits.brace (h : Emits m tokens l) (hpending : m.configPending = false)
    (hmodes : m.modes = .expression depth :: outer) (hl : l.modes = []) :
    ∃ x y, m.rest = x ++ '}' :: (y ++ l.rest) := by
  induction h generalizing depth with
  | nil =>
    rw [hl] at hmodes
    cases hmodes
  | @cons m m' l token tokens first less more ih =>
    have hturns := next_turns hpending
    rw [first] at hturns
    have hshift := hturns.shift token rfl
    obtain ⟨z, hz⟩ := suffix_of_token first
    obtain ⟨y, hy⟩ := more.suffix
    have hinner {depth' : Nat} (hmodes' : m'.modes = .expression depth' :: outer) :
        ∃ x y, m.rest = x ++ '}' :: (y ++ l.rest) := by
      obtain ⟨x, y, hx⟩ := ih hturns.pending hmodes' hl
      exact ⟨z ++ x, y, by rw [← hz, hx, List.append_assoc]⟩
    rw [hmodes] at hshift
    generalize hkind : token.kind = kind at hshift
    generalize hmodes' : m'.modes = modes' at hshift
    cases hshift with
    | operand => exact hinner hmodes'
    | braceOpen | braceClose => exact hinner hmodes'
    | closing =>
      obtain ⟨cs, p, modes, pending⟩ := m
      dsimp only at hmodes hpending
      subst hmodes hpending
      obtain ⟨x, hx⟩ := closing_rest hkind first
      exact ⟨x, y, by rw [hy]; exact hx⟩
    | opening _ houter => simp at houter

/-- What is left behind the tokens is left behind the first one. -/
theorem Emits.split_rest {w : List Char} (h : Emits m tokens l) {n : Lexer}
    (first : n.next = (.ok (some token), m)) (hl : l.rest = w ++ v) (hn : n.rest = x ++ v) :
    ∃ z y, x = z ++ y ∧ m.rest = y ++ v := by
  obtain ⟨before, hbefore⟩ := h.suffix
  obtain ⟨z, hz⟩ := suffix_of_token first
  rw [hl, ← List.append_assoc] at hbefore
  rw [hn, ← hbefore, ← List.append_assoc] at hz
  exact ⟨z, before ++ w, (List.append_cancel_right hz).symm, hbefore.symm⟩

/-- A token in front of more of them, or of another mode, leaves more text than they do. -/
theorem Emits.length_lt (h : Emits m tokens l) (hmodes : m.modes ≠ l.modes) :
    l.rest.length < m.rest.length := by
  cases h with
  | nil => exact absurd rfl hmodes
  | cons first less more => exact Nat.lt_of_le_of_lt more.suffix.length_le less

section
variable {w : List Char} (h : Emits m tokens l) (hmodes : l.modes = []) (hl : l.rest = w ++ v)
include h hmodes hl

theorem Emits.mem_brace (hpending : m.configPending = false)
    (hbraces : m.modes = .expression depth :: outer) (hm : m.rest = y ++ v) : '}' ∈ y := by
  obtain ⟨before, behind, hbrace⟩ := h.brace hpending hbraces hmodes
  rw [hm, hl, ← List.append_assoc, ← List.cons_append, ← List.append_assoc] at hbrace
  rw [List.append_cancel_right hbrace]
  simp

/-- Right behind a token of another kind the run is not over. -/
theorem Emits.not_empty {modes : List Mode} {kind : TokenKind} (hm : m.rest = [] ++ v)
    (hshift : Shift modes kind m.modes) (hkind : kind.isClosing = false)
    (htext : kind.isText ≠ true) : False := by
  by_cases hm' : m.modes = l.modes
  · rw [hm', hmodes] at hshift
    rcases hshift.to_text with h | h
    · exact htext h
    · rw [hkind] at h
      cases h
  · have hlength := h.length_lt hm'
    rw [hl, hm, List.length_append] at hlength
    exact absurd hlength (Nat.not_lt.2 (Nat.le_add_left ..))

end

-- ---------------------------------------------------------------------------
-- With something in between
-- ---------------------------------------------------------------------------

/-- No character that makes something of a slash behind it. -/
def BeforeSlash (cs : List Char) : Prop := ∀ c ∈ cs.getLast?, c ≠ '\\' ∧ c ≠ '<' ∧ c ≠ '*'

theorem BeforeSlash.right (h : BeforeSlash (x ++ y)) : BeforeSlash y := by
  intro c hc
  exact h c (by simp_all [List.getLast?_append])

theorem alike_append {a b : List Char} (h : y ≠ []) : Alike (y ++ a) (y ++ b) := by
  obtain ⟨c, y, rfl⟩ := List.exists_cons_of_ne_nil h
  exact ⟨c, y ++ a, y ++ b, rfl, rfl⟩

theorem markup_before {a b : List Char} (hy : y ≠ []) (hlast : BeforeSlash y)
    (h : AtMarkup (y ++ a)) : AtMarkup (y ++ b) := by
  obtain ⟨c, rest, hrest, hc⟩ := h
  cases y with
  | nil => exact absurd rfl hy
  | cons d y =>
    obtain ⟨rfl, rfl⟩ := List.cons.inj hrest
    refine ⟨d, y ++ b, rfl, hc.imp_right (.imp_right ?_)⟩
    rintro ⟨rfl, htag⟩
    cases y with
    | nil => exact absurd rfl (hlast '<' rfl).2.1
    | cons d y => exact ⟨rfl, htag⟩

/-- A step in front of the place does not see what is there. -/
theorem next_before {a b : List Char} {modes : List Mode}
    (h : (⟨x ++ (y ++ a), p, modes, false⟩ : Lexer).next = (.ok (some token), m))
    (hm : m.rest = y ++ a) (hmarkup : token.kind.isText → AtMarkup (y ++ a) → AtMarkup (y ++ b))
    (hy : token.kind.isClosing = false → y ≠ [])
    (hbrace : ∀ depth outer, modes = .expression depth :: outer → token.kind.isOperand → '}' ∈ y) :
    (⟨x ++ (y ++ b), p, modes, false⟩ : Lexer).next =
      (.ok (some token), { m with rest := y ++ b }) := by
  have halike (hkind : token.kind.isClosing = false) : Alike (y ++ a) (y ++ b) :=
    alike_append (hy hkind)
  have hlength : (y ++ a).length ≤ m.rest.length := (congrArg List.length hm).ge
  cases modes with
  | nil =>
    exact @Step.Matches.of_rest [] _ _ _ _ _ _ (text_matches h hm halike hmarkup) h hm
  | cons mode outer =>
    cases mode with
    | tag => exact @Step.Matches.of_rest [] _ _ _ _ _ _ (tag_matches h hlength halike) h hm
    | expression depth =>
      by_cases hoperand : token.kind.isOperand
      · obtain ⟨z, y, rfl⟩ := List.append_of_mem (hbrace depth outer rfl hoperand)
        simp only [List.append_assoc, List.cons_append] at h hm hlength ⊢
        rw [← List.append_assoc] at h ⊢
        have hclosed (more : List Char) : Closed ('}' :: more) := closed_cons rfl more
        have hrest : ('}' :: (y ++ a)).length ≤ m.rest.length :=
          Nat.le_trans (by simp) hlength
        exact (expression_matches h hrest fun _ => ⟨hclosed _, hclosed _⟩).of_rest h hm
      · exact @Step.Matches.of_rest [] _ _ _ _ _ _
          (expression_matches h hlength fun h => absurd h hoperand) h hm

section
variable {w t i : List Char} (hi : ∀ next, Crosses next false i []) (hslash : i.head? = some '/')
include hi hslash

/-- Where the text loop gets to the place, it goes on behind what is put there as it does without
that. -/
theorem stream_over (hx : Crosses v.head? false x t) (hlast : BeforeSlash x) (p q : Position) :
    Motion.anywhere.Streams (⟨x ++ v, p, [], false⟩ : Lexer).stream
      (⟨x ++ (i ++ v), q, [], false⟩ : Lexer).stream := by
  have hx' : Crosses (i.head?.or v.head?) false x t := by
    rw [hslash]
    exact hx.before_slash hlast
  have hrun : Motion.anywhere.TextRuns (textRun none p (x ++ v)) (textRun none q (x ++ (i ++ v))) := by
    rw [hx.run rfl, ← List.append_assoc, (hx'.append (hi _)).run rfl, List.append_nil]
    obtain ⟨htext, hstop, hposition, hrest⟩ := Motion.textRun_moves v
      (.none : Option.Rel Motion.anywhere.Positions none none)
      (trivial : Motion.anywhere.Positions (p.afterAll x) (q.afterAll (x ++ i)))
    exact ⟨congrArg (t ++ ·) htext, hstop, hposition, hrest⟩
  refine Motion.Steps.stream ?_
  rw [next_inText, next_inText]
  exact hrun.nextText rfl rfl trivial

/-- From anywhere in front of the place, which is in a text, the tokens are the same with something
there that the text loop goes over. -/
theorem Emits.streams (h : Emits m tokens l) (hpending : m.configPending = false)
    (hmodes : l.modes = []) (hl : l.rest = w ++ v) (hw : Crosses v.head? false w t)
    (hx : m.rest = x ++ v) (hlast : BeforeSlash x) :
    Motion.anywhere.Streams m.stream ({ m with rest := x ++ (i ++ v) } : Lexer).stream := by
  induction h generalizing x with
  | @nil l =>
    obtain ⟨cs, p, modes, pending⟩ := l
    dsimp only at hpending hmodes hl hx ⊢
    subst hpending hmodes hx
    obtain rfl := List.append_cancel_right hl
    exact stream_over hi hslash hw hlast p p
  | @cons m m' l token tokens first less more ih =>
    obtain ⟨z, y, rfl, hy⟩ := more.split_rest first hl hx
    have hturns := next_turns hpending
    rw [first] at hturns
    have hshift := hturns.shift token rfl
    obtain ⟨cs, p, modes, pending⟩ := m
    dsimp only at hpending hx hturns hshift ⊢
    subst hpending hx
    rw [List.append_assoc] at first
    by_cases hover : y = [] ∧ token.kind.isText
    · -- the text goes up to the place, if not over it
      obtain ⟨rfl, hkind⟩ := hover
      obtain rfl := hshift.of_text hkind
      cases taken_of_token first with
      | markup _ _ hmarkup => cases hkind.symm.trans hmarkup
      | text taken text _ _ htaken hcross _ =>
        rw [hy] at htaken hcross
        obtain rfl := List.append_cancel_right htaken
        rw [List.append_nil] at hlast ⊢
        exact stream_over hi hslash hcross hlast p p
    · have hfront (hkind : token.kind.isClosing = false) : y ≠ [] := by
        rintro rfl
        exact more.not_empty hmodes hl hy hshift hkind fun h => hover ⟨rfl, h⟩
      have hbrace (depth : Nat) (outer : List Mode) (hm : modes = .expression depth :: outer)
          (hkind : token.kind.isOperand) : '}' ∈ y := by
        subst hm
        exact more.mem_brace hmodes hl hturns.pending (hshift.unique (.operand hkind)) hy
      have hmarkup (hkind : token.kind.isText) : AtMarkup (y ++ v) → AtMarkup (y ++ (i ++ v)) :=
        markup_before (hfront (not_isClosing_of_isText hkind)) hlast.right
      have hnext := @next_before z y p token m' v (i ++ v) modes first hy hmarkup hfront hbrace
      have hrest := ih hturns.pending hmodes hl hy hlast.right
      rw [List.append_assoc, List.append_assoc, stream_of_token first, stream_of_token hnext]
      exact ⟨.cons ⟨rfl, trivial⟩ hrest.tokens, hrest.stop⟩

end

end Lexer

end PromptTemplate
