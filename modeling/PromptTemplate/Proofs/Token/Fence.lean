import PromptTemplate.Proofs.Token.Causes
import PromptTemplate.Proofs.Token.Section

/-!
# Which documents open with a section

The first line that is not blank opens a section if it is a fence once the
blanks in front of it are taken off. The line that closes the section has to be
a fence as it stands, so the two are found by one rule if and only if the
opening fence is not indented (`document_opens_iff`).
-/

namespace PromptTemplate.Lexer

variable {source : String} {first : List Char} {later : List (List Char)}

/-- The lines of a document from the first one on that is not blank. -/
def shownLines (source : String) : List (List Char) :=
  (lines source.toList).dropWhile (·.all Text.isBlank)

/-- The first item of a document is a section. -/
def OpensWith (source : String) (body : String) : Prop :=
  ∃ place, (document source).next.1 = .ok (some ⟨.config body, place⟩)

/-- The first item of a document is the error that its section does not end. -/
def OpensUnclosed (source : String) : Prop :=
  ∃ place, (document source).next.1 = .error ⟨.unclosedConfig, place⟩

-- ---------------------------------------------------------------------------
-- Documents without a section
-- ---------------------------------------------------------------------------

theorem not_opens_of_config? (h : (document source).ready.config? = none) :
    (∀ body, ¬ OpensWith source body) ∧ ¬ OpensUnclosed source := by
  have hnext : (document source).next = (document source).ready.next := by
    obtain ⟨-, hsome⟩ | hready := next_cases (document source)
    · rw [h] at hsome
      cases hsome
    · exact hready
  constructor
  · rintro body ⟨place, hfirst⟩
    have hturns := next_turns (m := (document source).ready) rfl
    rw [← hnext] at hturns
    exact Shift.not_config (hturns.shift _ hfirst)
  · rintro ⟨place, hfirst⟩
    have hblames : Step.Blames (· ≠ .unclosedConfig) (document source).ready.next := by
      unfold next
      exact .ite .finished (nextText_blames nofun nofun nofun nofun nofun _)
    rw [hnext] at hfirst
    exact hblames _ hfirst rfl

-- ---------------------------------------------------------------------------
-- Documents with one
-- ---------------------------------------------------------------------------

theorem config?_shownLines (source : String) : (document source).ready.config? = none ↔
    ∀ first ∈ (shownLines source).head?, isFence (first.dropWhile Text.isBlank) = false := by
  rw [ready, document, config?_none_iff_lines, lines_dropWhile, shownLines]
  cases (lines source.toList).dropWhile (·.all Text.isBlank) <;> simp

/-- What the first item is where the first line that is shown is a fence. -/
theorem document_next_fence (hlines : shownLines source = first :: later)
    (hfirst : isFence (first.dropWhile Text.isBlank)) :
    match later.dropWhile (!isFence ·) with
    | [] => OpensUnclosed source
    | _ :: _ => OpensWith source (String.ofList (later.takeWhile (!isFence ·)).flatten) := by
  have hopened : lines (document source).ready.skipBlanks.rest =
      first.dropWhile Text.isBlank :: later := by
    rw [rest_skipBlanks, ready, document, lines_dropWhile, ← shownLines, hlines]
  cases hconfig : (document source).ready.config? with
  | none =>
    rw [config?_shownLines, hlines] at hconfig
    exact absurd hfirst (by simpa using hconfig)
  | some step =>
    unfold OpensUnclosed OpensWith
    rw [next_of_config? hconfig]
    unfold config? at hconfig
    simp only [hopened, hfirst, if_true] at hconfig
    cases hclosing : later.dropWhile (!isFence ·) with
    | nil =>
      simp only [hclosing] at hconfig
      cases hconfig
      exact ⟨_, rfl⟩
    | cons closing others =>
      simp only [hclosing] at hconfig
      cases hconfig
      exact ⟨_, rfl⟩

theorem OpensWith.unique {body body' : String} (h : OpensWith source body)
    (h' : OpensWith source body') : body = body' := by
  obtain ⟨place, h⟩ := h
  obtain ⟨place', h'⟩ := h'
  rw [h] at h'
  cases h'
  rfl

theorem OpensWith.closed {body : String} (h : OpensWith source body) : ¬ OpensUnclosed source := by
  rintro ⟨place', h'⟩
  obtain ⟨place, h⟩ := h
  rw [h] at h'
  cases h'

section
variable (hlines : shownLines source = first :: later) (hfirst : isFence (first.dropWhile Text.isBlank))
include hlines hfirst

theorem opens_of_fence : (∃ body, OpensWith source body) ∨ OpensUnclosed source := by
  have hnext := document_next_fence hlines hfirst
  split at hnext
  · exact .inr hnext
  · exact .inl ⟨_, hnext⟩

/-- The body goes up to the first later fence. -/
theorem opensWith_iff (body : String) : OpensWith source body ↔
    ∃ inside closing others, later = inside ++ closing :: others ∧
      (∀ line ∈ inside, isFence line = false) ∧ isFence closing ∧
        body = String.ofList inside.flatten := by
  have hnext := document_next_fence hlines hfirst
  constructor
  · intro hbody
    have hsplit : later.takeWhile (!isFence ·) ++ later.dropWhile (!isFence ·) = later :=
      List.takeWhile_append_dropWhile
    have hinside : ∀ line ∈ later.takeWhile (!isFence ·), isFence line = false := by
      intro line hline
      simpa using List.all_eq_true.mp List.all_takeWhile line hline
    have hclosing := List.head?_dropWhile_not (!isFence ·) later
    split at hnext
    · exact absurd hnext hbody.closed
    · rename_i closing others hothers
      rw [hothers] at hsplit hclosing
      exact ⟨_, closing, others, hsplit.symm, hinside, by simpa using hclosing, hbody.unique hnext⟩
  · rintro ⟨inside, closing, others, rfl, hinside, hclosing, rfl⟩
    have hinside : ∀ line ∈ inside, (!isFence line) = true := by simpa using hinside
    rw [List.dropWhile_append_of_pos hinside, List.takeWhile_append_of_pos hinside,
      List.dropWhile_cons_of_neg (by simpa using hclosing),
      List.takeWhile_cons_of_neg (by simpa using hclosing), List.append_nil] at hnext
    exact hnext

end

/-- A fence is not indented. -/
theorem isFence_iff (line : List Char) : isFence line ↔
    isFence (line.dropWhile Text.isBlank) ∧ line.head?.all (!Text.isBlank ·) := by
  cases line with
  | nil => simp [isFence, Text.dropBlankEnd]
  | cons c cs =>
    cases hblank : Text.isBlank c with
    | false => simp [hblank]
    | true =>
      simp only [List.head?_cons, Option.all_some, hblank, Bool.not_true, Bool.false_eq_true, and_false,
        iff_false]
      intro hfence
      obtain ⟨blanks, -, hdashes⟩ := exists_of_isFence hfence
      obtain rfl := (List.cons.inj hdashes).1
      cases hblank

/-- A document opens with a section, or with the error that it does not end, if and only if its
first line that is not blank is a fence without the blanks in front. It is a section if and only if
there is a fence among the later lines, and then its body is what stands before the first one. That
the first line has to be a fence as it stands, like the later ones, is true if it is not an indented
one. -/
theorem document_opens_iff (source : String) :
    ((∃ body, OpensWith source body) ∨ OpensUnclosed source ↔
      ∃ first later, shownLines source = first :: later ∧ isFence (first.dropWhile Text.isBlank)) ∧
    (∀ body, OpensWith source body ↔ ∃ first inside closing others,
      shownLines source = first :: (inside ++ closing :: others) ∧
        isFence (first.dropWhile Text.isBlank) ∧ (∀ line ∈ inside, isFence line = false) ∧
        isFence closing ∧ body = String.ofList inside.flatten) ∧
    (((∃ body, OpensWith source body) ∨ OpensUnclosed source ↔
        ∃ first later, shownLines source = first :: later ∧ isFence first) ↔
      ∀ first ∈ (shownLines source).head?, isFence (first.dropWhile Text.isBlank) →
        first.head?.all (!Text.isBlank ·)) := by
  have hnone (h : ∀ first ∈ (shownLines source).head?, isFence (first.dropWhile Text.isBlank) = false) :=
    not_opens_of_config? ((config?_shownLines source).2 h)
  cases hlines : shownLines source with
  | nil =>
    rw [hlines] at hnone
    simp [hnone nofun]
  | cons first later =>
    rw [hlines] at hnone
    have hfence := isFence_iff first
    cases hfirst : isFence (first.dropWhile Text.isBlank) with
    | false =>
      have hnone := hnone (by simpa using hfirst)
      simp_all
    | true =>
      have hopens := opens_of_fence hlines hfirst
      refine ⟨?_, fun body => ?_, ?_⟩
      · simp [hopens, hfirst]
      · rw [opensWith_iff hlines hfirst]
        simp only [List.cons.injEq]
        constructor
        · rintro ⟨inside, closing, others, hlater, hinside, hclosing, hbody⟩
          exact ⟨first, inside, closing, others, ⟨rfl, hlater⟩, hfirst, hinside, hclosing, hbody⟩
        · rintro ⟨_, inside, closing, others, ⟨rfl, hlater⟩, -, hinside, hclosing, hbody⟩
          exact ⟨inside, closing, others, hlater, hinside, hclosing, hbody⟩
      · simp_all

/-- An indented fence opens a section, though it would not close one. -/
theorem opensWith_indented : OpensWith "  ---\na: 1\n---\n" "a: 1\n" ∧
    ¬ ((∃ body, OpensWith "  ---\na: 1\n---\n" body) ∨ OpensUnclosed "  ---\na: 1\n---\n" ↔
      ∃ first later, shownLines "  ---\na: 1\n---\n" = first :: later ∧ isFence first) := by
  have hopens : OpensWith "  ---\na: 1\n---\n" "a: 1\n" := ⟨⟨2, 15, 1, 3⟩, by decide +kernel⟩
  refine ⟨hopens, fun h => ?_⟩
  obtain ⟨first, later, hlines, hfirst⟩ := h.1 (.inl ⟨_, hopens⟩)
  have hhead := congrArg List.head? hlines
  rw [show (shownLines "  ---\na: 1\n---\n").head? = some "  ---\n".toList by decide +kernel] at hhead
  cases hhead
  exact absurd hfirst (by decide)

end PromptTemplate.Lexer
