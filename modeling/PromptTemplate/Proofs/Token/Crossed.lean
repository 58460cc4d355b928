import PromptTemplate.Proofs.Token.Lexed
import PromptTemplate.Proofs.Token.Trivia

/-!
# What the text loop goes over

The loop that reads a text goes over its characters, over escapes and over
comments. What it does with a character depends on the next one, and on nothing
further ahead. `Crosses` says that it goes over a piece of text, whatever stands
behind the character after it.
-/

namespace PromptTemplate.Lexer

/-- The character stands for itself in front of the next one. -/
def isPlain (c : Char) (next : Option Char) : Bool :=
  !(c = '{' || c = '}' || c = '\\' && next.any isEscapable || c = '/' && next = some '*' ||
    c = '*' && next = some '/' || c = '<' && startsTag next.toList)

/-- The text loop goes over the characters, in front of `next`, from inside of a comment or from
outside of one, and comes out with this text. -/
inductive Crosses (next : Option Char) : (inside : Bool) → List Char → (text : List Char) → Prop
  | done : Crosses next false [] []
  | char {c cs text} (hc : isPlain c (cs.head?.or next)) (h : Crosses next false cs text) :
    Crosses next false (c :: cs) (c :: text)
  | escape {c cs text} (hc : isEscapable c) (h : Crosses next false cs text) :
    Crosses next false ('\\' :: c :: cs) (c :: text)
  | opening {cs text} (h : Crosses next true cs text) : Crosses next false ('/' :: '*' :: cs) text
  | inside {c cs text} (hc : ¬ (c = '*' ∧ cs.head?.or next = some '/'))
    (h : Crosses next true cs text) : Crosses next true (c :: cs) text
  | closing {cs text} (h : Crosses next false cs text) : Crosses next true ('*' :: '/' :: cs) text

def TextRun.prepend (text : List Char) (run : TextRun) : TextRun :=
  { run with text := text ++ run.text }

variable {cs more text : List Char} {next : Option Char} {inside : Bool}

-- ---------------------------------------------------------------------------
-- The loop
-- ---------------------------------------------------------------------------

theorem textRun_char {c : Char} (h : isPlain c more.head?) (p : Position) :
    textRun none p (c :: more) = (textRun none (p.after c) more).push c := by
  cases more with
  | nil =>
    have hbrace : ¬ (c = '{' ∨ c = '}') := by
      rintro (rfl | rfl) <;> cases h
    simp [textRun, hbrace, TextRun.push]
  | cons d more =>
    have htag : startsTag (d :: more) = startsTag [d] := rfl
    simp only [isPlain, List.head?_cons, Option.any_some, Option.toList_some, Bool.not_eq_true',
      Bool.or_eq_false_iff, Option.some.injEq, ← htag] at h
    obtain ⟨⟨⟨⟨⟨hopen, hclose⟩, hescape⟩, hcomment⟩, hstray⟩, hless⟩ := h
    simp only [textRun, hopen, hclose, hescape, hcomment, hstray, hless, Bool.or_self,
      Bool.false_eq_true, if_false]

theorem textRun_inside {c : Char} (hc : ¬ (c = '*' ∧ more.head? = some '/')) (start p : Position) :
    textRun (some start) p (c :: more) = textRun (some start) (p.after c) more := by
  cases more with
  | nil => rfl
  | cons d more =>
    have hclose : ¬ (c = '*' && d = '/') = true := by simpa using hc
    simp only [textRun, hclose, Bool.false_eq_true, if_false]

theorem Crosses.run (h : Crosses more.head? inside cs text) {comment : Option Position}
    (hcomment : comment.isSome = inside) (p : Position) :
    textRun comment p (cs ++ more) = (textRun none (p.afterAll cs) more).prepend text := by
  induction h generalizing comment p with
  | done =>
    obtain rfl : comment = none := by simpa using hcomment
    rfl
  | char hc h ih =>
    obtain rfl : comment = none := by simpa using hcomment
    rw [List.cons_append, textRun_char (by rwa [List.head?_append]), ih rfl]
    rfl
  | escape hc h ih =>
    obtain rfl : comment = none := by simpa using hcomment
    rw [List.cons_append, List.cons_append, textRun_escaped hc, ih rfl]
    rfl
  | opening h ih =>
    obtain rfl : comment = none := by simpa using hcomment
    exact ih rfl _
  | inside hc h ih =>
    obtain ⟨start, rfl⟩ := Option.isSome_iff_exists.1 hcomment
    rw [List.cons_append, textRun_inside (by rwa [List.head?_append]), ih rfl]
    rfl
  | closing h ih =>
    obtain ⟨start, rfl⟩ := Option.isSome_iff_exists.1 hcomment
    exact ih rfl _

-- ---------------------------------------------------------------------------
-- Pieces
-- ---------------------------------------------------------------------------

namespace Crosses

variable {text' : List Char}

theorem append (h : Crosses (more.head?.or next) inside cs text)
    (hmore : Crosses next false more text') : Crosses next inside (cs ++ more) (text ++ text') := by
  induction h with
  | done => exact hmore
  | char hc h ih =>
    rw [← Option.or_assoc, ← List.head?_append] at hc
    exact .char hc ih
  | escape hc h ih => exact .escape hc ih
  | opening h ih => exact .opening ih
  | inside hc h ih =>
    rw [← Option.or_assoc, ← List.head?_append] at hc
    exact .inside hc ih
  | closing h ih => exact .closing ih

theorem body {body : List Char} (h : ¬ ['*', '/'] <:+: body) :
    Crosses next true (body ++ ['*', '/']) [] := by
  induction body with
  | nil => exact .closing .done
  | cons c body ih =>
    refine .inside ?_ (ih fun hinfix => h (List.infix_cons hinfix))
    rintro ⟨rfl, hslash⟩
    cases body with
    | nil => cases hslash
    | cons d body =>
      obtain rfl : d = '/' := by simpa using hslash
      exact h ⟨[], body, rfl⟩

/-- A comment is gone over, and there is nothing of it in the text. -/
theorem comment {body : List Char} (h : ¬ ['*', '/'] <:+: body) :
    Crosses next false ('/' :: '*' :: (body ++ ['*', '/'])) [] :=
  .opening (.body h)

/-- A piece may stand in front of a slash unless its last character makes something of one. -/
theorem before_slash (h : Crosses next inside cs text)
    (hlast : ∀ c ∈ cs.getLast?, c ≠ '\\' ∧ c ≠ '<' ∧ c ≠ '*') :
    Crosses (some '/') inside cs text := by
  have hrest {P : Char → Prop} {c : Char} {cs : List Char} (h : ∀ d ∈ (c :: cs).getLast?, P d) :
      ∀ d ∈ cs.getLast?, P d := by
    intro d hd
    exact h d (by simp_all [List.getLast?_cons])
  induction h with
  | done => exact .done
  | @char c cs text hc h ih =>
    refine .char ?_ (ih (hrest hlast))
    cases cs with
    | cons d cs => exact hc
    | nil =>
      obtain ⟨hescape, hless, hstar⟩ := hlast c rfl
      simp only [isPlain, Bool.not_eq_true', Bool.or_eq_false_iff] at hc
      simp [isPlain, hc, hescape, hless, hstar]
  | escape hc h ih => exact .escape hc (ih (hrest (hrest hlast)))
  | opening h ih => exact .opening (ih (hrest (hrest hlast)))
  | @inside c cs text hc h ih =>
    refine .inside ?_ (ih (hrest hlast))
    cases cs with
    | cons d cs => exact hc
    | nil => cases h
  | closing h ih => exact .closing (ih (hrest (hrest hlast)))

end Crosses

/-- A run that does not fail goes over what it leaves behind. -/
theorem textRun_crosses (comment : Option Position) (p : Position) (cs : List Char)
    (hstop : ∀ error, (textRun comment p cs).stop ≠ .failure error) :
    ∃ taken, cs = taken ++ (textRun comment p cs).rest ∧
      Crosses (textRun comment p cs).rest.head? comment.isSome taken (textRun comment p cs).text ∧
      (textRun comment p cs).position = p.afterAll taken := by
  fun_induction textRun comment p cs with
  | case1 | case4 | case11 => exact ⟨[], rfl, .done, rfl⟩
  | case2 | case3 | case10 => exact absurd rfl (hstop _)
  | case5 p c next hbrace =>
    have hbrace : c ≠ '{' ∧ c ≠ '}' := by simpa using hbrace
    exact ⟨[c], rfl, .char (by simp [isPlain, hbrace, startsTag]) .done, rfl⟩
  | case6 p c d cs next beyond start hclose ih =>
    obtain ⟨rfl, rfl⟩ : c = '*' ∧ d = '/' := by simpa using hclose
    obtain ⟨taken, hcs, hcross, hp⟩ := ih hstop
    exact ⟨'*' :: '/' :: taken, congrArg ('*' :: '/' :: ·) hcs, .closing hcross, hp⟩
  | case7 p c d cs next start hclose ih =>
    obtain ⟨taken, hcs, hcross, hp⟩ := ih hstop
    refine ⟨c :: taken, congrArg (c :: ·) hcs, .inside ?_ hcross, hp⟩
    rw [← List.head?_append, ← hcs]
    simpa using hclose
  | case8 p c d cs next beyond hescape ih =>
    obtain ⟨rfl, hd⟩ : c = '\\' ∧ isEscapable d := by simpa using hescape
    obtain ⟨taken, hcs, hcross, hp⟩ := ih hstop
    exact ⟨'\\' :: d :: taken, congrArg ('\\' :: d :: ·) hcs, .escape hd hcross, hp⟩
  | case9 p c d cs next beyond hescape hopen ih =>
    obtain ⟨rfl, rfl⟩ : c = '/' ∧ d = '*' := by simpa using hopen
    obtain ⟨taken, hcs, hcross, hp⟩ := ih hstop
    exact ⟨'/' :: '*' :: taken, congrArg ('/' :: '*' :: ·) hcs, .opening hcross, hp⟩
  | case12 p c d cs next hescape hopen hclose hmarkup ih =>
    obtain ⟨taken, hcs, hcross, hp⟩ := ih hstop
    refine ⟨c :: taken, congrArg (c :: ·) hcs, .char ?_ hcross, hp⟩
    change isPlain c (taken.head?.or (textRun none next (d :: cs)).rest.head?) = true
    rw [← List.head?_append, ← hcs]
    have htag : startsTag (d :: cs) = startsTag [d] := rfl
    simp only [Bool.not_eq_true, Bool.or_eq_false_iff] at hescape hopen hclose hmarkup
    simp [isPlain, hescape, hopen, hclose, hmarkup, ← htag]

end PromptTemplate.Lexer
