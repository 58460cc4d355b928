import Mathlib.Data.List.Find
import PromptTemplate.Proofs.Number.Numeral
import PromptTemplate.Proofs.Text.Letter
import PromptTemplate.Token.Stream

/-!
# Texts and their tokens

`Lexes modes chars kinds modes'`: in these modes the lexer takes tokens of
these kinds off the text `chars`, whatever it goes on with as `follow` allows,
and is in the modes `modes'` then.
-/

namespace PromptTemplate.Lexer

/-- Steps from one lexer to another, with their tokens. -/
inductive Emits : Lexer → List Token → Lexer → Prop
  | nil {l} : Emits l [] l
  | cons {l m n token tokens} (first : l.next = (.ok (some token), m))
    (less : m.rest.length < l.rest.length) (more : Emits m tokens n) : Emits l (token :: tokens) n

theorem Emits.append {l m n : Lexer} {first second : List Token} (h : Emits l first m)
    (h' : Emits m second n) : Emits l (first ++ second) n := by
  induction h with
  | nil => exact h'
  | cons first less _ ih => exact .cons first less (ih h')

/-- Only the first step sees where it started. -/
theorem Emits.replace {l l' n : Lexer} {tokens : List Token} (h : Emits l tokens n)
    (htokens : tokens ≠ []) (hnext : l'.next = l.next) (hless : l.rest.length ≤ l'.rest.length) :
    Emits l' tokens n := by
  cases h with
  | nil => exact absurd rfl htokens
  | cons first less more => exact .cons (hnext.trans first) (by omega) more

/-- The stream of a text that is read to its end. -/
theorem Emits.stream {l m n : Lexer} {tokens : List Token} (h : Emits l tokens m)
    (hend : m.next = (.ok none, n)) : l.stream = ⟨tokens, .ok n.position⟩ := by
  have hwithin : ∀ budget, l.rest.length < budget →
      l.streamWithin budget = ⟨tokens, .ok n.position⟩ := by
    induction h with
    | nil =>
      intro budget hbudget
      obtain ⟨budget, rfl⟩ := Nat.exists_eq_add_one_of_ne_zero (Nat.ne_of_gt (Nat.zero_lt_of_lt hbudget))
      simp [streamWithin, hend]
    | cons first less _ ih =>
      intro budget hbudget
      obtain ⟨budget, rfl⟩ := Nat.exists_eq_add_one_of_ne_zero (Nat.ne_of_gt (Nat.zero_lt_of_lt hbudget))
      simp [streamWithin, first, ih hend budget (by omega)]
  exact hwithin _ (Nat.lt_succ_self _)

-- ---------------------------------------------------------------------------
-- Runs of characters
-- ---------------------------------------------------------------------------

section
variable {cs more : List Char} {p : Position} {modes : List Mode} {pending : Bool} {c : Char}

@[simp] theorem advance_append :
    (⟨cs ++ more, p, modes, pending⟩ : Lexer).advance cs.length =
      ⟨more, p.afterAll cs, modes, pending⟩ := by
  simp [advance]

@[simp] theorem advance_one :
    (⟨c :: more, p, modes, pending⟩ : Lexer).advance 1 = ⟨more, p.after c, modes, pending⟩ := rfl

@[simp] theorem advance_two {d : Char} :
    (⟨c :: d :: more, p, modes, pending⟩ : Lexer).advance 2 =
      ⟨more, (p.after c).after d, modes, pending⟩ := rfl

@[simp] theorem upTo_append :
    (⟨cs ++ more, p, modes, pending⟩ : Lexer).upTo more = ⟨more, p.afterAll cs, modes, pending⟩ := by
  rw [upTo, show (cs ++ more).length - more.length = cs.length by simp, advance_append]

theorem takeWhile_append {q : Char → Bool} (hcs : ∀ c ∈ cs, q c)
    (hmore : ∀ c ∈ more.head?, q c = false) : (cs ++ more).takeWhile q = cs := by
  rw [List.takeWhile_append_of_pos hcs]
  cases more with
  | nil => simp
  | cons c more => simp [hmore c rfl]

theorem takeRun_append {q : Char → Bool} (hcs : ∀ c ∈ cs, q c)
    (hmore : ∀ c ∈ more.head?, q c = false) :
    (⟨cs ++ more, p, modes, pending⟩ : Lexer).takeRun q =
      (String.ofList cs, ⟨more, p.afterAll cs, modes, pending⟩) := by
  simp [takeRun, takeWhile_append hcs hmore]

theorem skipBlanks_self {l : Lexer} (h : ∀ c ∈ l.rest.head?, Text.isBlank c = false) :
    l.skipBlanks = l := by
  rw [skipBlanks, show l.rest.takeWhile Text.isBlank = [] from @takeWhile_append [] _ _ nofun h]
  rfl

theorem skipBlanks_cons (h : Text.isBlank c) :
    (⟨c :: more, p, modes, pending⟩ : Lexer).skipBlanks =
      (⟨more, p.after c, modes, pending⟩ : Lexer).skipBlanks := by
  simp [skipBlanks, advance, h]

/-- A blank before a word is passed over. -/
theorem next_blank {mode : Mode} {outer : List Mode} (hc : Text.isBlank c) (hmore : more ≠ []) :
    (⟨c :: more, p, mode :: outer, false⟩ : Lexer).next =
      (⟨more, p.after c, mode :: outer, false⟩ : Lexer).next := by
  have hskip := @skipBlanks_cons more p (mode :: outer) false c hc
  cases mode with
  | tag => simp [next, nextInMode, hmore, nextTag, hskip]
  | expression depth => simp [next, nextInMode, hmore, nextExpression, hskip]

/-- If a token comes behind the blank, there is something behind it. -/
theorem next_of_blank {mode : Mode} {outer : List Mode} {token : Token} {m : Lexer}
    (hc : Text.isBlank c) (h : (⟨c :: more, p, mode :: outer, false⟩ : Lexer).next = (.ok (some token), m)) :
    (⟨more, p.after c, mode :: outer, false⟩ : Lexer).next = (.ok (some token), m) := by
  have hmore : more ≠ [] := by
    rintro rfl
    cases mode <;>
      simp only [next, nextInMode, nextTag, nextExpression, skipBlanks_cons hc] at h <;> cases h
  rwa [next_blank hc hmore] at h

end

-- ---------------------------------------------------------------------------
-- Pieces of text
-- ---------------------------------------------------------------------------

def Lexes (modes : List Mode) (chars : List Char) (kinds : List TokenKind) (modes' : List Mode)
    (follow : List Char → Prop) : Prop :=
  ∀ more p, follow more → ∃ tokens, tokens.map Token.kind = kinds ∧
    Emits ⟨chars ++ more, p, modes, false⟩ tokens ⟨more, p.afterAll chars, modes', false⟩

variable {modes modes' modes'' : List Mode} {chars chars' : List Char} {kind : TokenKind}
  {kinds kinds' : List TokenKind} {follow follow' : List Char → Prop}

namespace Lexes

theorem nil : Lexes modes [] [] modes follow :=
  fun _ _ _ => ⟨[], rfl, .nil⟩

theorem mono (h : Lexes modes chars kinds modes' follow) (himp : ∀ more, follow' more → follow more) :
    Lexes modes chars kinds modes' follow' :=
  fun more p hmore => h more p (himp more hmore)

theorem append (h : Lexes modes chars kinds modes' follow)
    (h' : Lexes modes' chars' kinds' modes'' follow')
    (hfollow : ∀ more, follow' more → follow (chars' ++ more)) :
    Lexes modes (chars ++ chars') (kinds ++ kinds') modes'' follow' := by
  intro more p hmore
  obtain ⟨first, hfirst, hemits⟩ := h (chars' ++ more) p (hfollow more hmore)
  obtain ⟨second, hsecond, hemits'⟩ := h' more (p.afterAll chars) hmore
  refine ⟨first ++ second, by simp [hfirst, hsecond], ?_⟩
  rw [List.append_assoc, Position.afterAll_append]
  exact hemits.append hemits'

/-- One token, by the equation of its step. -/
theorem one (hchars : chars ≠ []) (h : ∀ more p, follow more → ∃ start,
      (⟨chars ++ more, p, modes, false⟩ : Lexer).next =
        (⟨more, p.afterAll chars, modes', false⟩ : Lexer).emit start kind) :
    Lexes modes chars [kind] modes' follow := by
  intro more p hmore
  obtain ⟨start, hstep⟩ := h more p hmore
  have hpos := List.length_pos_iff.mpr hchars
  exact ⟨[_], rfl, .cons hstep (by simp; omega) .nil⟩

theorem blanks {mode : Mode} {outer : List Mode} (gap : List Char)
    (hgap : ∀ c ∈ gap, Text.isBlank c) (hchars : chars ≠ [])
    (h : Lexes (mode :: outer) chars (kind :: kinds) modes' follow) :
    Lexes (mode :: outer) (gap ++ chars) (kind :: kinds) modes' follow := by
  induction gap with
  | nil => exact h
  | cons c gap ih =>
    obtain ⟨hc, hgap⟩ := List.forall_mem_cons.1 hgap
    intro more p hmore
    obtain ⟨tokens, htokens, hemits⟩ := ih hgap more (p.after c) hmore
    refine ⟨tokens, htokens, hemits.replace ?_ (next_blank hc (by simp [hchars])) (Nat.le_succ _)⟩
    rintro rfl
    cases htokens

theorem blank {mode : Mode} {outer : List Mode} (hchars : chars ≠ [])
    (h : Lexes (mode :: outer) chars (kind :: kinds) modes' follow) :
    Lexes (mode :: outer) (' ' :: chars) (kind :: kinds) modes' follow :=
  h.blanks [' '] (List.forall_mem_singleton.2 rfl) hchars

end Lexes

/-! ## Where words end

A blank, a closing brace and a closing parenthesis end every word of an
expression but a string, as does the end of the text. What is taken in front of
them does not depend on which it is. -/

def endsWord (c : Char) : Bool := Text.isBlank c || c = '}' || c = ')'

theorem endsWord_cases {c : Char} (h : endsWord c) : Text.isBlank c ∨ c = '}' ∨ c = ')' := by
  simpa [endsWord, or_assoc] using h

theorem not_isIdentPart_of_endsWord {c : Char} (h : endsWord c) : Text.isIdentPart c = false := by
  obtain h | rfl | rfl := endsWord_cases h
  · exact Text.not_isIdentPart_of_isBlank h
  · decide
  · decide

theorem not_isDigit_of_endsWord {c : Char} (h : endsWord c) : c.isDigit = false := by
  obtain h | rfl | rfl := endsWord_cases h
  · cases hdigit : c.isDigit with
    | false => rfl
    | true =>
      rw [Text.not_isBlank_of_isDigit hdigit] at h
      cases h
  · decide
  · decide

/-- Nothing, or something that ends a word with anything behind it. -/
def Closed (more : List Char) : Prop := ∀ c ∈ more.head?, endsWord c

variable {cs more : List Char}

theorem closed_cons {c : Char} (h : endsWord c) (more : List Char) : Closed (c :: more) := by
  rintro _ ⟨⟩
  exact h

namespace Closed

variable (h : Closed more)
include h

theorem ne {d : Char} (hd : endsWord d = false) : ∀ c ∈ more.head?, c ≠ d := by
  rintro c hc rfl
  rw [h c hc] at hd
  cases hd

theorem not_isIdentPart : ∀ c ∈ more.head?, Text.isIdentPart c = false :=
  fun c hc => not_isIdentPart_of_endsWord (h c hc)

theorem ended : Number.Ended more := fun c hc =>
  ⟨not_isDigit_of_endsWord (h c hc), h.ne (by decide) c hc, h.ne (by decide) c hc,
    h.ne (by decide) c hc, h.ne (by decide) c hc, h.ne (by decide) c hc⟩

theorem takeWhile {q : Char → Bool} (hq : ∀ c, endsWord c → q c = false) :
    (cs ++ more).takeWhile q = cs.takeWhile q := by
  induction cs with
  | nil => exact @takeWhile_append [] _ _ nofun fun c hc => hq c (h c hc)
  | cons c cs ih => simp only [List.cons_append, List.takeWhile_cons, ih]

theorem startsDigit : startsDigit (cs ++ more) = Lexer.startsDigit cs := by
  cases cs with
  | cons c cs => rfl
  | nil =>
    cases more with
    | nil => rfl
    | cons c more => exact not_isDigit_of_endsWord (h c rfl)

theorem startsNumber (c : Char) : startsNumber (c :: (cs ++ more)) = Lexer.startsNumber (c :: cs) := by
  cases cs with
  | cons d cs => by_cases hc : c = '.' <;> simp [Lexer.startsNumber, hc]
  | nil =>
    cases more with
    | nil => rfl
    | cons d more =>
      by_cases hc : c = '.'
      · rw [hc]
        exact not_isDigit_of_endsWord (h d rfl)
      · simp [Lexer.startsNumber, hc]

theorem isPrefixOf {word : List Char} (hword : ∀ c ∈ word, endsWord c = false) :
    word.isPrefixOf (cs ++ more) = word.isPrefixOf cs := by
  induction word generalizing cs with
  | nil => rfl
  | cons w word ih =>
    obtain ⟨hw, hword⟩ := List.forall_mem_cons.1 hword
    cases cs with
    | cons c cs => simp only [List.cons_append, List.isPrefixOf_cons_cons, ih hword]
    | nil =>
      cases more with
      | nil => rfl
      | cons c more => simp [List.isPrefixOf_cons_cons, Ne.symm (h.ne hw c rfl)]

/-- Only the first character of a symbol may be one that ends words. -/
theorem symbol? (c : Char) : symbol? (c :: (cs ++ more)) = Lexer.symbol? (c :: cs) := by
  have htable : ∀ s ∈ Symbol.table, s.text.toList ≠ [] ∧
      s.text.toList.tail.all fun c => !endsWord c := by
    decide
  unfold Lexer.symbol?
  refine List.find?_congr fun s hs => ?_
  obtain ⟨hne, htail⟩ := htable s hs
  rw [List.all_eq_true] at htail
  have hstarts : s.text.toList.isPrefixOf (c :: (cs ++ more)) = s.text.toList.isPrefixOf (c :: cs) := by
    obtain ⟨first, word, hword⟩ := List.exists_cons_of_ne_nil hne
    rw [hword, List.tail_cons] at htail
    rw [hword, List.isPrefixOf_cons_cons, List.isPrefixOf_cons_cons, h.isPrefixOf fun c hc => by
      simpa using htail c hc]
  rw [hstarts]
  by_cases hdot : s = .optionalDot ∧ s.text.toList.isPrefixOf (c :: cs)
  · obtain ⟨rfl, hstarts⟩ := hdot
    obtain ⟨rest, hrest⟩ := List.isPrefixOf_iff_prefix.1 hstarts
    obtain ⟨rfl, rfl⟩ := List.cons.inj hrest
    exact congrArg (fun digit => true && !(true && digit)) h.startsDigit
  · rcases not_and_or.1 hdot with hdot | hdot <;> simp [hdot]

end Closed

end PromptTemplate.Lexer
