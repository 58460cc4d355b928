import PromptTemplate.Proofs.Token.Crossed
import PromptTemplate.Proofs.Token.Moved
import PromptTemplate.Proofs.Token.Progress
import PromptTemplate.Proofs.Token.Tail

/-!
# How far the lexer looks ahead

Outside of expressions a step looks one character beyond what it takes, and not
even there if it ends a tag or an expression.
-/

namespace PromptTemplate

/-- The last character of the token tells that it ends there. -/
def TokenKind.isClosing : TokenKind → Bool
  | .tagEnd | .tagSelfClose | .tagClose _ | .mustacheClose => true
  | _ => false

theorem not_isClosing_of_isText {kind : TokenKind} (h : kind.isText) : kind.isClosing = false := by
  cases kind <;> first | rfl | cases h

namespace Lexer

variable {x a b : List Char} {c : Char} {p q : Position} {modes outer : List Mode} {pending : Bool}
  {token : Token} {m : Lexer}

-- ---------------------------------------------------------------------------
-- Runs of characters
-- ---------------------------------------------------------------------------

theorem takeWhile_shared {r : Char → Bool} (h : ((x ++ c :: a).takeWhile r).length ≤ x.length) :
    ∃ run rest, x = run ++ rest ∧ ∀ more, (x ++ c :: more).takeWhile r = run := by
  induction x with
  | nil =>
    have hc : r c = false := by
      by_contra hc
      rw [Bool.not_eq_false] at hc
      simp [hc] at h
    exact ⟨[], [], rfl, fun more => by simp [hc]⟩
  | cons d x ih =>
    cases hd : r d with
    | false => exact ⟨[], d :: x, rfl, fun more => by simp [hd]⟩
    | true =>
      obtain ⟨run, rest, rfl, hrun⟩ := ih (by simpa [hd] using h)
      exact ⟨d :: run, rest, rfl, fun more => by simpa [hd] using hrun more⟩

theorem takeRun_shared {r : Char → Bool}
    (h : (c :: a).length ≤
      ((⟨x ++ c :: a, p, modes, pending⟩ : Lexer).takeRun r).2.rest.length) :
    ∃ run rest, x = run ++ rest ∧ ∀ more, (⟨x ++ c :: more, p, modes, pending⟩ : Lexer).takeRun r =
      (String.ofList run, ⟨rest ++ c :: more, p.afterAll run, modes, pending⟩) := by
  have hlength : ((x ++ c :: a).takeWhile r).length ≤ x.length := by
    have hle := (List.takeWhile_prefix r (l := x ++ c :: a)).length_le
    simp only [takeRun, advance, List.length_drop, List.length_append, List.length_cons] at h hle ⊢
    omega
  obtain ⟨run, rest, rfl, hrun⟩ := takeWhile_shared hlength
  refine ⟨run, rest, rfl, fun more => ?_⟩
  simp only [takeRun, hrun]
  rw [List.append_assoc, advance_append]

theorem skipBlanks_shared
    (h : (c :: a).length ≤ (⟨x ++ c :: a, p, modes, pending⟩ : Lexer).skipBlanks.rest.length) :
    ∃ run rest, x = run ++ rest ∧ ∀ more, (⟨x ++ c :: more, p, modes, pending⟩ : Lexer).skipBlanks =
      ⟨rest ++ c :: more, p.afterAll run, modes, pending⟩ := by
  obtain ⟨run, rest, hx, hrun⟩ := takeRun_shared h
  exact ⟨run, rest, hx, fun more => congrArg Prod.snd (hrun more)⟩

theorem length_takeRun (l : Lexer) (r : Char → Bool) :
    (l.takeRun r).2.rest.length ≤ l.rest.length := by
  simp [takeRun, advance]

theorem length_skipBlanks (l : Lexer) : l.skipBlanks.rest.length ≤ l.rest.length := by
  simp [skipBlanks, advance]

-- ---------------------------------------------------------------------------
-- Braces and tags
-- ---------------------------------------------------------------------------

theorem brace_named {open? : Char} (kind : String → TokenKind)
    (hbrace : ∀ cs, (⟨'{' :: open? :: cs, p, modes, false⟩ : Lexer).brace =
      (((⟨cs, (p.after '{').after open?, modes, false⟩ : Lexer).takeRun Text.isIdentPart).2.enter
        (.expression 0)).emit p (kind ((⟨cs, (p.after '{').after open?, modes, false⟩ :
          Lexer).takeRun Text.isIdentPart).1))
    (h : (c :: a).length ≤ (⟨'{' :: (x ++ c :: a), p, modes, false⟩ : Lexer).brace.2.rest.length)
    (hx : (x ++ [c]).head? = some open?) :
    Step.Matches (c :: a) (c :: b) (⟨'{' :: (x ++ c :: a), p, modes, false⟩ : Lexer).brace
      (⟨'{' :: (x ++ c :: b), p, modes, false⟩ : Lexer).brace := by
  cases x with
  | nil =>
    obtain rfl : c = open? := by simpa using hx
    simp only [List.nil_append, hbrace] at h
    exact absurd (Nat.le_trans h (length_takeRun _ _)) (Nat.not_succ_le_self _)
  | cons d x =>
    obtain rfl : d = open? := by simpa using hx
    simp only [List.cons_append, hbrace] at h ⊢
    obtain ⟨run, rest, rfl, hrun⟩ := takeRun_shared h
    rw [hrun, hrun]
    exact .emit

theorem brace_matches
    (h : (c :: a).length ≤ (⟨'{' :: (x ++ c :: a), p, modes, false⟩ : Lexer).brace.2.rest.length) :
    Step.Matches (c :: a) (c :: b) (⟨'{' :: (x ++ c :: a), p, modes, false⟩ : Lexer).brace
      (⟨'{' :: (x ++ c :: b), p, modes, false⟩ : Lexer).brace := by
  by_cases hopen : (x ++ [c]).head? = some '#'
  · exact brace_named .blockOpen (fun _ => rfl) h hopen
  · by_cases hclose : (x ++ [c]).head? = some '/'
    · exact brace_named .blockClose (fun _ => rfl) h hclose
    · by_cases hbranch : (x ++ [c]).head? = some ':'
      · cases x with
        | nil =>
          obtain rfl : c = ':' := by simpa using hbranch
          exact absurd h (Nat.not_succ_le_self _)
        | cons d x =>
          obtain rfl : d = ':' := by simpa using hbranch
          exact .emit
      · have hmustache (more : List Char) : Mustache (x ++ c :: more) := by
          intro d hd
          have hhead : (x ++ [c]).head? = some d := by cases x <;> simpa using hd
          rw [hhead] at hopen hclose hbranch
          exact ⟨fun h => hopen (h ▸ rfl), fun h => hbranch (h ▸ rfl), fun h => hclose (h ▸ rfl)⟩
        rw [brace_mustache (hmustache a), brace_mustache (hmustache b)]
        exact .emit

theorem openingTag_rest {l : Lexer} (h : l.openingTag = (.ok (some token), m)) :
    m.rest = ((l.advance 1).takeRun Text.isTagNamePart).2.rest := by
  unfold openingTag at h
  dsimp only at h
  split at h
  · cases h
    rfl
  · split at h
    · cases h
      rfl
    · cases h

theorem openingTag_kind {l : Lexer} (h : l.openingTag = (.ok (some token), m)) :
    token.kind.isClosing = false := by
  unfold openingTag at h
  dsimp only at h
  split at h
  · cases h
    rfl
  · split at h <;> cases h
    rfl

/-- The name of an opening tag ends in front of the next character. -/
theorem openingTag_matches
    (h : (⟨'<' :: (x ++ c :: a), p, modes, false⟩ : Lexer).openingTag = (.ok (some token), m))
    (hm : (c :: a).length ≤ m.rest.length) :
    Step.Matches (c :: a) (c :: b) (⟨'<' :: (x ++ c :: a), p, modes, false⟩ : Lexer).openingTag
      (⟨'<' :: (x ++ c :: b), p, modes, false⟩ : Lexer).openingTag := by
  rw [openingTag_rest h, advance_one] at hm
  obtain ⟨run, rest, rfl, hrun⟩ := takeRun_shared hm
  simp only [openingTag, advance_one, hrun] at h ⊢
  cases rest with
  | nil =>
    simp only [List.nil_append] at h ⊢
    split at h
    · rename_i hc
      simp only [hc, if_true]
      exact @Step.Matches.emit _ _ _ _ _ [] _
    · cases h
  | cons d rest =>
    simp only [List.cons_append] at h ⊢
    split at h
    · rename_i hd
      simp only [hd, if_true]
      exact @Step.Matches.emit _ _ _ _ _ (d :: rest) _
    · cases h

/-- A closing tag ends with its angle, whatever comes then. -/
theorem closingTag_matches
    (h : (⟨'<' :: '/' :: (x ++ a), p, modes, false⟩ : Lexer).closingTag = (.ok (some token), m))
    (hm : a.length ≤ m.rest.length) :
    Step.Matches a b (⟨'<' :: '/' :: (x ++ a), p, modes, false⟩ : Lexer).closingTag
      (⟨'<' :: '/' :: (x ++ b), p, modes, false⟩ : Lexer).closingTag := by
  unfold closingTag at h ⊢
  rw [advance_two] at h ⊢
  rw [advance_two]
  dsimp only at h ⊢
  have hname := List.drop_suffix ((x ++ a).takeWhile Text.isTagNamePart).length (x ++ a)
  split at h
  · cases h
  · rename_i hletter
    split at h
    · rename_i rest hrest
      cases h
      have hblanks : '>' :: rest <:+ x ++ a := by
        rw [← hrest]
        exact (List.drop_suffix _ _).trans hname
      obtain ⟨taken, htaken⟩ := hblanks
      have hm : a.length ≤ rest.length := by simpa [advance, hrest] using hm
      obtain ⟨y, rfl, rfl⟩ := @split_of_length x a (taken ++ ['>']) rest hm (by simp [htaken])
      simp only [List.append_assoc, List.cons_append, List.nil_append] at hrest hletter ⊢
      obtain ⟨name, blanks, rfl, hrun⟩ := @takeRun_shared taken (y ++ a) '>' _ _ _ _
        ((congrArg List.length hrest).ge.trans (length_skipBlanks _))
      rw [hrun] at hrest hletter ⊢
      rw [hrun]
      obtain ⟨skipped, rest, rfl, hskip⟩ :=
        @skipBlanks_shared blanks (y ++ a) '>' _ _ _ (congrArg List.length hrest).ge
      rw [hskip] at hrest ⊢
      rw [hskip]
      obtain rfl : rest = [] := List.append_left_eq_self.1 hrest
      simp only [hletter]
      exact .emit
    · cases h

theorem attributeValue_matches {quote : Char}
    (h : (⟨x ++ a, q, modes, false⟩ : Lexer).attributeValue p quote = (.ok (some token), m))
    (hm : a.length ≤ m.rest.length) :
    Step.Matches a b ((⟨x ++ a, q, modes, false⟩ : Lexer).attributeValue p quote)
      ((⟨x ++ b, q, modes, false⟩ : Lexer).attributeValue p quote) := by
  unfold attributeValue at h
  dsimp only at h
  split at h
  · rename_i hlength
    cases h
    have hm : a.length ≤ ((x ++ a).drop (((x ++ a).takeWhile (· ≠ quote)).length + 1)).length := hm
    have hsplit : (x ++ a).takeWhile (· ≠ quote) ++ (x ++ a).dropWhile (· ≠ quote) = x ++ a :=
      List.takeWhile_append_dropWhile
    have hquote := List.head?_dropWhile_not (· ≠ quote) (x ++ a)
    have hvalue : ∀ d ∈ (x ++ a).takeWhile (· ≠ quote), d ≠ quote := by
      intro d hd
      simpa using List.all_eq_true.mp List.all_takeWhile d hd
    generalize (x ++ a).takeWhile (· ≠ quote) = value at *
    generalize (x ++ a).dropWhile (· ≠ quote) = rest at *
    cases rest with
    | nil => simp [← hsplit] at hlength
    | cons d rest =>
      obtain rfl : d = quote := by simpa using hquote
      have hm : a.length ≤ rest.length := by
        rw [← hsplit] at hm
        simpa using hm
      obtain ⟨y, rfl, rfl⟩ := @split_of_length x a (value ++ [d]) rest hm (by simp [hsplit])
      simp only [List.append_assoc, List.cons_append, List.nil_append,
        attributeValue_closed hvalue]
      exact .emit
  · cases h

/-- Both texts start with the same character. -/
def Alike (a b : List Char) : Prop := ∃ c a' b', a = c :: a' ∧ b = c :: b'

theorem Alike.head? (h : Alike a b) : a.head? = b.head? := by
  obtain ⟨c, a, b, rfl, rfl⟩ := h
  rfl

-- ---------------------------------------------------------------------------
-- The inside of a tag
-- ---------------------------------------------------------------------------

theorem brace_kind {l : Lexer} (h : l.brace = (.ok (some token), m)) :
    token.kind.isClosing = false := by
  unfold brace at h
  dsimp only at h
  split at h <;> cases h <;> rfl

theorem tag_slash_matches
    (h : (⟨'/' :: (x ++ a), p, .tag :: outer, false⟩ : Lexer).next = (.ok (some token), m))
    (hm : a.length ≤ m.rest.length) :
    Step.Matches a b (⟨'/' :: (x ++ a), p, .tag :: outer, false⟩ : Lexer).next
      (⟨'/' :: (x ++ b), p, .tag :: outer, false⟩ : Lexer).next := by
  by_cases hangle : (x ++ a).head? = some '>'
  · cases x with
    | nil =>
      cases a with
      | nil => cases hangle
      | cons d a =>
        obtain rfl : d = '>' := by simpa using hangle
        cases h
        exact absurd hm (Nat.not_succ_le_self _)
    | cons d x =>
      obtain rfl : d = '>' := by simpa using hangle
      exact .emit
  · rw [next_of_stuck rfl ⟨rfl, '/', x ++ a, rfl, by decide, by decide, by decide,
      fun h => hangle h.2⟩] at h
    cases h

theorem tag_word_matches (hblank : Text.isBlank c = false)
    (h : (⟨c :: (x ++ a), p, .tag :: outer, false⟩ : Lexer).next = (.ok (some token), m))
    (hm : a.length ≤ m.rest.length) (hab : token.kind.isClosing = false → Alike a b) :
    Step.Matches a b (⟨c :: (x ++ a), p, .tag :: outer, false⟩ : Lexer).next
      (⟨c :: (x ++ b), p, .tag :: outer, false⟩ : Lexer).next := by
  by_cases hc : c ≠ '/' ∧ c ≠ '>' ∧ c ≠ '=' ∧ c ≠ '{'
  · rw [next_attribute hblank hc] at h ⊢
    rw [next_attribute hblank hc]
    dsimp only at h ⊢
    by_cases hquote : c = '"' || c = '\''
    · simp only [hquote, if_true, advance_one] at h ⊢
      exact attributeValue_matches h hm
    · simp only [hquote, Bool.false_eq_true, if_false] at h ⊢
      by_cases hstart : Text.isAttributeStart c
      · simp only [hstart, if_true] at h ⊢
        cases h
        obtain ⟨d, a, b, rfl, rfl⟩ := hab rfl
        obtain ⟨run, rest, hx, hrun⟩ := @takeRun_shared (c :: x) a d _ _ _ _ hm
        simp only [← List.cons_append, hrun]
        exact .emit
      · simp only [hstart] at h
        cases h
  · obtain rfl | rfl | rfl | rfl : c = '/' ∨ c = '>' ∨ c = '=' ∨ c = '{' := by
      simpa only [not_and_or, not_not] using hc
    · exact tag_slash_matches h hm
    · exact .emit
    · exact .emit
    · have hbrace (cs : List Char) : (⟨'{' :: cs, p, .tag :: outer, false⟩ : Lexer).next =
        (⟨'{' :: cs, p, .tag :: outer, false⟩ : Lexer).brace := rfl
      rw [hbrace] at h ⊢
      rw [hbrace]
      obtain ⟨c, a, b, rfl, rfl⟩ := hab (brace_kind h)
      exact brace_matches (by rwa [h])

/-- Unless it ends the tag, a token in a tag may need the character behind it. -/
theorem tag_matches
    (h : (⟨x ++ a, p, .tag :: outer, false⟩ : Lexer).next = (.ok (some token), m))
    (hm : a.length ≤ m.rest.length) (hab : token.kind.isClosing = false → Alike a b) :
    Step.Matches a b (⟨x ++ a, p, .tag :: outer, false⟩ : Lexer).next
      (⟨x ++ b, p, .tag :: outer, false⟩ : Lexer).next := by
  induction x generalizing p with
  | nil => exact absurd (length_of_token h) (Nat.not_lt.2 hm)
  | cons c x ih =>
    by_cases hblank : Text.isBlank c
    · exact blank_matches hblank ih h
    · exact tag_word_matches (by simpa using hblank) h hm hab

-- ---------------------------------------------------------------------------
-- Texts
-- ---------------------------------------------------------------------------

theorem next_inText (cs : List Char) (p : Position) :
    (⟨cs, p, [], false⟩ : Lexer).next = (⟨cs, p, [], false⟩ : Lexer).nextText := by
  cases cs <;> rfl

section
variable {more text : List Char} (hmore : AtMarkup more)
include hmore

theorem textRun_to_markup (h : Crosses more.head? false x text) (p : Position) :
    textRun none p (x ++ more) = ⟨text, .atMarkup, p.afterAll x, more⟩ := by
  rw [h.run rfl, textRun_markup hmore]
  simp [TextRun.prepend]

theorem next_over_text (h : Crosses more.head? false x text) (htext : text ≠ []) (p : Position) :
    (⟨x ++ more, p, [], false⟩ : Lexer).next =
      (⟨more, p.afterAll x, [], false⟩ : Lexer).emit p (.text (String.ofList text)) := by
  simp [next_inText, nextText, textRun_to_markup hmore h, htext]

theorem next_over_comments (h : Crosses more.head? false x []) (hopen : more.head? ≠ some '}')
    (p : Position) : (⟨x ++ more, p, [], false⟩ : Lexer).next =
      (⟨more, p.afterAll x, [], false⟩ : Lexer).next := by
  simp only [next_inText, nextText, textRun_to_markup hmore h, textRun_markup hmore]
  obtain ⟨c, more, rfl, -⟩ := hmore
  have hc : c ≠ '}' := fun heq => hopen (congrArg some heq)
  simp only [ne_eq, not_true, if_false]
  split <;> rename_i heq <;> simp_all

end

/-- A tag takes the character after its angle. -/
theorem tag_length (htag : startsTag a)
    (h : (⟨'<' :: a, p, [], false⟩ : Lexer).next = (.ok (some token), m)) :
    m.rest.length < a.length := by
  cases a with
  | nil => cases htag
  | cons c a =>
    by_cases hslash : c = '/'
    · subst hslash
      rw [next_closingTag] at h
      unfold closingTag at h
      dsimp only at h
      split at h
      · cases h
      · split at h
        · cases h
          simp only [advance, skipBlanks, takeRun, List.length_drop, List.length_cons]
          omega
        · cases h
    · have hletter : c.isAlpha := by simpa [startsTag, hslash] using htag
      have hpart : Text.isTagNamePart c := by simp [Text.isTagNamePart, Char.isAlphanum, hletter]
      rw [next_openingTag hletter] at h
      rw [openingTag_rest h, advance_one]
      exact (passes_takeRun rfl hpart).shorter

section
variable (hx : AtMarkup (x ++ a))
  (h : (⟨x ++ a, p, [], false⟩ : Lexer).next = (.ok (some token), m))
  (hm : a.length ≤ m.rest.length)
include hx h hm

/-- The part of the markup that is taken tells that it is one. -/
theorem markup_shared (b : List Char) : AtMarkup (x ++ b) := by
  obtain ⟨c, rest, hrest, hc⟩ := hx
  cases x with
  | nil => exact absurd (length_of_token h) (Nat.not_lt.2 hm)
  | cons d x =>
    obtain ⟨rfl, rfl⟩ := List.cons.inj hrest
    refine ⟨d, x ++ b, rfl, hc.imp_right (.imp_right ?_)⟩
    rintro ⟨rfl, htag⟩
    cases x with
    | nil => exact absurd (tag_length htag h) (Nat.not_lt.2 hm)
    | cons d x => exact ⟨rfl, htag⟩

theorem markup_matches (hab : token.kind.isClosing = false → Alike a b) :
    Step.Matches a b (⟨x ++ a, p, [], false⟩ : Lexer).next (⟨x ++ b, p, [], false⟩ : Lexer).next := by
  obtain ⟨c, rest, hrest, hc⟩ := hx
  cases x with
  | nil => exact absurd (length_of_token h) (Nat.not_lt.2 hm)
  | cons d x =>
    obtain ⟨rfl, rfl⟩ := List.cons.inj hrest
    rcases hc with rfl | rfl | ⟨rfl, htag⟩
    · simp only [List.cons_append, next_brace] at h ⊢
      obtain ⟨c, a, b, rfl, rfl⟩ := hab (brace_kind h)
      exact brace_matches (by rwa [h])
    · rw [List.cons_append, next_inText, nextText, textRun_markup ⟨_, _, rfl, .inr (.inl rfl)⟩] at h
      cases h
    · cases x with
      | nil => exact absurd (tag_length htag h) (Nat.not_lt.2 hm)
      | cons d x =>
        simp only [List.cons_append] at h ⊢
        by_cases hslash : d = '/'
        · subst hslash
          simp only [next_closingTag] at h ⊢
          exact closingTag_matches h hm
        · have hletter : d.isAlpha := by simpa [startsTag, hslash] using htag
          simp only [next_openingTag hletter] at h ⊢
          obtain ⟨c, a, b, rfl, rfl⟩ := hab (openingTag_kind h)
          exact @openingTag_matches (d :: x) _ _ _ _ _ _ _ h hm

end

/-- What a token is that comes in text. -/
inductive Taken (p : Position) (cs : List Char) (token : Token) (m : Lexer) : Prop
  | text (taken text) (hkind : token.kind.isText) (htext : text ≠ []) (hcs : cs = taken ++ m.rest)
    (hcross : Crosses m.rest.head? false taken text) (hstop : m.rest = [] ∨ AtMarkup m.rest)
  | markup (comments rest) (hkind : token.kind.isText = false) (hcs : cs = comments ++ rest)
    (hrest : AtMarkup rest) (hcross : Crosses rest.head? false comments [])
    (hopen : rest.head? ≠ some '}')
    (hnext : (⟨rest, p.afterAll comments, [], false⟩ : Lexer).next = (.ok (some token), m))

/-- Markup is no text. -/
theorem markup_kind {cs : List Char} (hcs : AtMarkup cs)
    (h : (⟨cs, p, [], false⟩ : Lexer).next = (.ok (some token), m)) : token.kind.isText = false := by
  have hquiet : Quiet ⟨cs, p, [], false⟩ := ⟨rfl, by rw [textRun_markup hcs]⟩
  by_contra hkind
  exact ((next_lexed rfl token m h).2.2 (by simpa using hkind)).1 hquiet

theorem taken_of_token {cs : List Char}
    (h : (⟨cs, p, [], false⟩ : Lexer).next = (.ok (some token), m)) : Taken p cs token m := by
  have hfail : ∀ error, (textRun none p cs).stop ≠ .failure error := by
    intro error hstop
    simp only [next_inText, nextText, hstop] at h
    cases h
  obtain ⟨taken, htaken, hcross, -⟩ := textRun_crosses none p cs hfail
  have hstopped := textRun_stopped none p cs
  have hnext := h
  rw [next_inText, nextText] at hnext
  generalize textRun none p cs = run at *
  obtain ⟨text, stop, q, rest⟩ := run
  dsimp only at htaken hcross hfail hnext
  cases stop with
  | failure error => exact absurd rfl (hfail error)
  | atEnd =>
    dsimp only at hnext
    split at hnext
    · cases hnext
    · rename_i htext
      cases hnext
      exact .text taken text rfl htext htaken hcross (.inl hstopped)
  | atMarkup =>
    have hstopped : AtMarkup rest := hstopped
    by_cases htext : text = []
    · subst htext
      have hopen : rest.head? ≠ some '}' := by
        intro hhead
        obtain ⟨more, rfl⟩ := List.head?_eq_some_iff.1 hhead
        cases hnext
      rw [htaken, next_over_comments hstopped hcross hopen] at h
      exact .markup taken rest (markup_kind hstopped h) htaken hstopped hcross hopen h
    · simp only [ne_eq, htext, not_false_eq_true, if_true] at hnext
      cases hnext
      exact .text taken text rfl htext htaken hcross (.inr hstopped)

/-- In text. A text ends where markup starts, so that has to start in front of `b`, too. -/
theorem text_matches
    (h : (⟨x ++ a, p, [], false⟩ : Lexer).next = (.ok (some token), m)) (hm : m.rest = a)
    (hab : token.kind.isClosing = false → Alike a b)
    (hmarkup : token.kind.isText → AtMarkup a → AtMarkup b) :
    Step.Matches a b (⟨x ++ a, p, [], false⟩ : Lexer).next (⟨x ++ b, p, [], false⟩ : Lexer).next := by
  cases taken_of_token h with
  | text taken text hkind htext hcs hcross hstop =>
    rw [hm] at hcs hcross hstop
    obtain rfl := List.append_cancel_right hcs
    have halike := hab (not_isClosing_of_isText hkind)
    have hstop : AtMarkup a := by
      obtain ⟨c, a, b, rfl, -⟩ := halike
      exact hstop.resolve_left (List.cons_ne_nil _ _)
    rw [next_over_text hstop hcross htext,
      next_over_text (hmarkup hkind hstop) (halike.head? ▸ hcross) htext]
    exact @Step.Matches.emit _ _ _ _ _ [] _
  | markup comments rest hkind hcs hrest hcross hopen hnext =>
    have hlength : a.length ≤ m.rest.length := (congrArg List.length hm).ge
    have hshorter := Nat.lt_of_le_of_lt hlength (length_of_token hnext)
    obtain ⟨y, rfl, rfl⟩ := split_of_length hshorter.le hcs
    have hhead : (y ++ a).head? = (y ++ b).head? := by
      cases y with
      | nil => exact absurd hshorter (Nat.lt_irrefl _)
      | cons c y => rfl
    have hshared := markup_shared hrest hnext hlength b
    rw [hcs, next_over_comments hrest hcross hopen, List.append_assoc,
      next_over_comments hshared (hhead ▸ hcross) (hhead ▸ hopen)]
    exact markup_matches hrest hnext hlength hab

end Lexer

end PromptTemplate
