import Mathlib.Data.List.Basic
import Mathlib.Data.List.TakeWhile
import PromptTemplate.Proofs.Token.Emits
import PromptTemplate.Token.Lexer

/-!
# The opening section

The lexer skips blanks, over the ends of lines too, and looks at what is left
of the line that it comes to. That is the first line which is not blank, so
the lexer finds an opening section if and only if that line, without the
blanks at its ends, is a fence (`config?_none_iff`).

A section ends with the line of its second fence, and what comes behind that
line does not change it (`config?_some`). A text without a section does not get
one by a slash in it (`config?_none_with`), nor by what stands behind a
character that no fence has (`config?_none_behind`).
-/

namespace PromptTemplate.Lexer

-- ---------------------------------------------------------------------------
-- Where it starts
-- ---------------------------------------------------------------------------

/-- Skipping blanks skips the blank lines and the blanks in front of the next one. -/
theorem lines_dropWhile (cs : List Char) :
    lines (cs.dropWhile Text.isBlank) = match (lines cs).dropWhile (·.all Text.isBlank) with
      | [] => []
      | line :: more => line.dropWhile Text.isBlank :: more := by
  induction cs with
  | nil => rfl
  | cons c cs ih =>
    by_cases hc : c = '\n'
    · subst hc
      exact ih
    · cases hblank : Text.isBlank c with
      | false =>
        rw [List.dropWhile_cons_of_neg (by simp [hblank]), lines, if_neg hc]
        cases lines cs <;> simp [hblank]
      | true =>
        rw [List.dropWhile_cons_of_pos hblank, ih, lines, if_neg hc]
        cases hlines : lines cs with
        | nil => simp [hblank]
        | cons line more =>
          cases hline : line.all Text.isBlank <;> simp [hblank, hline]

/-- The first line that is not blank, without the blanks at its ends. -/
def firstLine? (cs : List Char) : Option (List Char) :=
  ((lines cs).find? (!·.all Text.isBlank)).map Text.trimChars

theorem rest_skipBlanks (l : Lexer) : l.skipBlanks.rest = l.rest.dropWhile Text.isBlank := by
  have hsplit : l.rest.takeWhile Text.isBlank ++ l.rest.dropWhile Text.isBlank = l.rest :=
    List.takeWhile_append_dropWhile
  calc l.rest.drop (l.rest.takeWhile Text.isBlank).length
      = (l.rest.takeWhile Text.isBlank ++ l.rest.dropWhile Text.isBlank).drop
          (l.rest.takeWhile Text.isBlank).length := by rw [hsplit]
    _ = l.rest.dropWhile Text.isBlank := List.drop_left

theorem config?_none_iff (cs : List Char) (p : Position) (modes : List Mode) (pending : Bool) :
    (⟨cs, p, modes, pending⟩ : Lexer).config? = none ↔ firstLine? cs ≠ some ['-', '-', '-'] := by
  unfold config? firstLine?
  simp only [rest_skipBlanks, lines_dropWhile, List.find?_not_eq_head?_dropWhile]
  cases (lines cs).dropWhile (·.all Text.isBlank) with
  | nil => simp
  | cons line more =>
    simp only [List.head?_cons, Option.map_some, Text.trimChars, isFence, decide_eq_true_eq]
    split
    · rename_i hfence
      simp only [hfence, ne_eq, not_true, iff_false]
      split <;> simp
    · rename_i hfence
      simpa using hfence

variable {cs rest : List Char} {line : List Char} {done more : List (List Char)}

-- ---------------------------------------------------------------------------
-- Lines
-- ---------------------------------------------------------------------------

theorem lines_append (h : cs = [] ∨ cs.getLast? = some '\n') (rest : List Char) :
    lines (cs ++ rest) = lines cs ++ lines rest := by
  induction cs with
  | nil => rfl
  | cons c cs ih =>
    have hlast : (c :: cs).getLast? = some '\n' := h.resolve_left (List.cons_ne_nil _ _)
    cases cs with
    | nil =>
      obtain rfl : c = '\n' := by simpa using hlast
      rfl
    | cons d cs =>
      have ih := ih (.inr (by simpa using hlast))
      rw [List.cons_append, lines, lines, ih]
      split
      · rfl
      · cases hlines : lines (d :: cs) with
        | nil => exact absurd hlines (by unfold lines; split <;> (try split) <;> simp)
        | cons line more => rfl

/-- A piece without a line feed goes to the first line. -/
theorem lines_append_first (hcs : '\n' ∉ cs) (h : lines rest = line :: more) :
    lines (cs ++ rest) = (cs ++ line) :: more := by
  induction cs with
  | nil => exact h
  | cons c cs ih =>
    obtain ⟨hc, hcs⟩ := not_or.1 (mt List.mem_cons.2 hcs)
    rw [List.cons_append, lines, if_neg (Ne.symm hc), ih hcs]
    rfl

/-- It is in one piece there. -/
theorem lines_append_cons (hcs : '\n' ∉ cs) (hne : cs ≠ []) (rest : List Char) :
    ∃ line more, lines (cs ++ rest) = (cs ++ line) :: more := by
  cases hrest : lines rest with
  | cons line more => exact ⟨line, more, lines_append_first hcs hrest⟩
  | nil =>
    obtain rfl : rest = [] := by
      rw [← flatten_lines rest, hrest]
      rfl
    obtain ⟨front, last, rfl⟩ := (List.eq_nil_or_concat cs).resolve_left hne
    obtain ⟨hfront, hlast⟩ : '\n' ∉ front ∧ '\n' ≠ last := by simpa using hcs
    refine ⟨[], [], ?_⟩
    rw [List.concat_eq_append, List.append_nil]
    refine lines_append_first hfront ?_
    rw [lines, if_neg (Ne.symm hlast)]
    rfl

theorem lines_done (h : lines cs = done ++ more) : lines done.flatten = done := by
  induction cs generalizing done with
  | nil =>
    obtain ⟨rfl, -⟩ := List.append_eq_nil_iff.1 h.symm
    rfl
  | cons c cs ih =>
    cases done with
    | nil => rfl
    | cons line done =>
      rw [lines] at h
      split at h
      · rename_i hc
        obtain ⟨rfl, hmore⟩ := List.cons.inj h
        rw [List.flatten_cons, List.singleton_append, lines, if_pos rfl, ih hmore]
      · rename_i hc
        split at h
        · obtain ⟨rfl, hmore⟩ := List.cons.inj h
          obtain ⟨rfl, -⟩ := List.append_eq_nil_iff.1 hmore.symm
          simp [lines, hc]
        · rename_i first others hlines
          obtain ⟨rfl, rfl⟩ := List.cons.inj h
          have hdone := @ih (first :: done) hlines
          rw [List.flatten_cons] at hdone
          rw [List.flatten_cons, List.cons_append, lines, if_neg hc, hdone]

/-- Only the last line may lack its line feed. -/
theorem lines_getLast? (h : lines cs = done ++ more) (hdone : done ≠ []) (hmore : more ≠ []) :
    done.flatten.getLast? = some '\n' := by
  induction cs generalizing done with
  | nil => exact absurd (List.append_eq_nil_iff.1 h.symm).1 hdone
  | cons c cs ih =>
    obtain ⟨line, done, rfl⟩ := List.exists_cons_of_ne_nil hdone
    rw [lines] at h
    split at h
    · obtain ⟨rfl, hrest⟩ := List.cons.inj h
      cases done with
      | nil => rfl
      | cons line done =>
        have hlast := ih hrest (List.cons_ne_nil _ _)
        rw [List.flatten_cons, List.getLast?_append, hlast]
        rfl
    · split at h
      · obtain ⟨rfl, hrest⟩ := List.cons.inj h
        exact absurd (List.append_eq_nil_iff.1 hrest.symm).2 hmore
      · rename_i first others hlines
        obtain ⟨rfl, rfl⟩ := List.cons.inj h
        have hlast := @ih (first :: done) hlines (List.cons_ne_nil _ _)
        rw [List.flatten_cons] at hlast ⊢
        rw [List.cons_append, List.getLast?_cons, hlast]
        rfl

-- ---------------------------------------------------------------------------
-- Sections
-- ---------------------------------------------------------------------------

theorem exists_of_isFence (h : isFence line) :
    ∃ blanks, (∀ c ∈ blanks, Text.isBlank c) ∧ line = '-' :: '-' :: '-' :: blanks := by
  have hdashes : (line.reverse.dropWhile Text.isBlank).reverse = ['-', '-', '-'] := by
    simpa [isFence, Text.dropBlankEnd] using h
  refine ⟨(line.reverse.takeWhile Text.isBlank).reverse, fun c hc => ?_, ?_⟩
  · exact List.all_eq_true.mp List.all_takeWhile c (List.mem_reverse.1 hc)
  · have hsplit : line.reverse.takeWhile Text.isBlank ++ line.reverse.dropWhile Text.isBlank =
        line.reverse := List.takeWhile_append_dropWhile
    have hline := congrArg List.reverse hsplit
    rw [List.reverse_append, hdashes, List.reverse_reverse] at hline
    exact hline.symm

/-- No fence has a character that is neither a blank nor a dash. -/
theorem isFence_of_mem {c : Char} (hblank : Text.isBlank c = false) (hdash : c ≠ '-') (h : c ∈ line) :
    isFence line = false := by
  by_contra hfence
  obtain ⟨blanks, hblanks, rfl⟩ := exists_of_isFence (Bool.not_eq_false _ ▸ hfence)
  have hmem : c ∈ blanks := by simpa [hdash] using h
  rw [hblanks c hmem] at hblank
  cases hblank

section
variable {blanks first closing : List Char} {body : List (List Char)}

/-- The lines of a section that ends with a line feed. -/
structure IsSection (first : List Char) (body : List (List Char)) (closing : List Char) : Prop where
  opens : isFence first
  inside : ∀ line ∈ body, isFence line = false
  closes : isFence closing
  whole : lines (first :: (body ++ [closing])).flatten = first :: (body ++ [closing])
  ends : (first :: (body ++ [closing])).flatten.getLast? = some '\n'

theorem skipBlanks_behind {blanks rest : List Char} (hblanks : ∀ c ∈ blanks, Text.isBlank c)
    (hrest : ∀ c ∈ rest.head?, Text.isBlank c = false) (p : Position) (modes : List Mode)
    (pending : Bool) : (⟨blanks ++ rest, p, modes, pending⟩ : Lexer).skipBlanks =
      ⟨rest, p.afterAll blanks, modes, pending⟩ := by
  rw [skipBlanks, takeWhile_append hblanks hrest, advance_append]

/-- A section is taken in front of everything. -/
theorem IsSection.config? (h : IsSection first body closing) (hblanks : ∀ c ∈ blanks, Text.isBlank c)
    (p : Position) (modes : List Mode) (rest : List Char) :
    let text := (first :: (body ++ [closing])).flatten
    (⟨blanks ++ (text ++ rest), p, modes, false⟩ : Lexer).config? =
      some ((⟨rest, (p.afterAll blanks).afterAll text, modes, false⟩ : Lexer).emit (p.afterAll blanks)
        (.config (String.ofList body.flatten))) := by
  intro text
  have hskip : (⟨blanks ++ (text ++ rest), p, modes, false⟩ : Lexer).skipBlanks =
      ⟨text ++ rest, p.afterAll blanks, modes, false⟩ := by
    refine skipBlanks_behind hblanks ?_ p modes false
    obtain ⟨more, -, hfirst⟩ := exists_of_isFence h.opens
    simp [text, hfirst, Text.isBlank]
  have hlines : lines (text ++ rest) = first :: (body ++ closing :: lines rest) := by
    rw [lines_append (.inr h.ends), h.whole]
    simp
  have hlength : first.length + body.flatten.length + closing.length = text.length := by
    simp [text, Nat.add_assoc]
  have hinside : ∀ line ∈ body, (!isFence line) = true := by simpa using h.inside
  unfold Lexer.config?
  simp only [hskip, hlines, h.opens, if_true, List.takeWhile_append_of_pos hinside,
    List.dropWhile_append_of_pos hinside, List.takeWhile_cons, List.dropWhile_cons, h.closes,
    Bool.not_true, Bool.false_eq_true, if_false, List.append_nil, hlength, advance_append]

/-- A section that is taken has its lines in front of what is left. -/
theorem lines_of_config? {p : Position} {modes : List Mode} {token : Token} {m : Lexer}
    (h : (⟨cs, p, modes, false⟩ : Lexer).config? = some (.ok (some token), m)) :
    ∃ first body closing others, isFence first ∧ (∀ line ∈ body, isFence line = false) ∧
      isFence closing ∧ lines (cs.dropWhile Text.isBlank) = (first :: (body ++ [closing])) ++ others ∧
      m.rest = others.flatten := by
  unfold Lexer.config? at h
  dsimp only at h
  rw [rest_skipBlanks] at h
  generalize hopened : (⟨cs, p, modes, false⟩ : Lexer).skipBlanks = opened at h
  have hrest : opened.rest = cs.dropWhile Text.isBlank := by rw [← hopened, rest_skipBlanks]
  split at h
  · cases h
  · rename_i first more hlines
    split at h
    · rename_i hfirst
      have hmore : more.takeWhile (!isFence ·) ++ more.dropWhile (!isFence ·) = more :=
        List.takeWhile_append_dropWhile
      split at h
      · cases h
      · rename_i closing others hclosing
        cases h
        rw [hclosing] at hmore
        have hclose := List.head?_dropWhile_not (!isFence ·) more
        rw [hclosing] at hclose
        have hinside : ∀ line ∈ more.takeWhile (!isFence ·), isFence line = false := by
          intro line hline
          simpa using List.all_eq_true.mp List.all_takeWhile line hline
        generalize more.takeWhile (!isFence ·) = body at *
        subst hmore
        refine ⟨first, body, closing, others, hfirst, hinside, by simpa using hclose, by simp [hlines],
          ?_⟩
        have htext := flatten_lines (cs.dropWhile Text.isBlank)
        rw [hlines] at htext
        simp only [advance, hrest, ← htext, List.flatten_cons, List.flatten_append,
          ← List.append_assoc]
        exact List.drop_left' (by simp [Nat.add_assoc])
    · cases h

/-- What is left behind a section that has been taken. -/
theorem config?_some {x a : List Char} {p : Position} {modes : List Mode} {token : Token} {m : Lexer}
    (h : (⟨x ++ a, p, modes, false⟩ : Lexer).config? = some (.ok (some token), m))
    (hm : m.rest = a) (hends : a ≠ [] ∨ x.getLast? = some '\n') (b : List Char) :
    (⟨x ++ b, p, modes, false⟩ : Lexer).config? = some (.ok (some token), { m with rest := b }) := by
  obtain ⟨first, body, closing, others, hopens, hinside, hcloses, hlines, hrest⟩ := lines_of_config? h
  obtain rfl : others.flatten = a := hrest.symm.trans hm
  have htext := flatten_lines ((x ++ others.flatten).dropWhile Text.isBlank)
  rw [hlines, List.flatten_append] at htext
  have hsplit : (x ++ others.flatten).takeWhile Text.isBlank ++
      (x ++ others.flatten).dropWhile Text.isBlank = x ++ others.flatten :=
    List.takeWhile_append_dropWhile
  have hblanks : ∀ c ∈ (x ++ others.flatten).takeWhile Text.isBlank, Text.isBlank c :=
    List.all_eq_true.mp List.all_takeWhile
  generalize (x ++ others.flatten).takeWhile Text.isBlank = blanks at *
  rw [← htext, ← List.append_assoc] at hsplit
  obtain rfl := List.append_cancel_right hsplit
  have hsection : IsSection first body closing := by
    refine ⟨hopens, hinside, hcloses, lines_done hlines, ?_⟩
    rcases hends with hothers | hends
    · refine lines_getLast? hlines (List.cons_ne_nil _ _) ?_
      rintro rfl
      exact hothers rfl
    · obtain ⟨more, -, hfirst⟩ := exists_of_isFence hopens
      rwa [List.getLast?_append_of_ne_nil _ (by simp [hfirst])] at hends
  rw [List.append_assoc, hsection.config? hblanks] at h ⊢
  cases h
  rfl

theorem config?_none_iff_lines (cs : List Char) (p : Position) (modes : List Mode) (pending : Bool) :
    (⟨cs, p, modes, pending⟩ : Lexer).config? = none ↔
      ∀ line ∈ (lines (cs.dropWhile Text.isBlank)).head?, isFence line = false := by
  unfold Lexer.config?
  simp only [rest_skipBlanks]
  cases lines (cs.dropWhile Text.isBlank) with
  | nil => simp
  | cons line more =>
    by_cases hfence : isFence line
    · simp only [hfence, if_true]
      split <;> simp [hfence]
    · simp [hfence]

theorem config?_none_pending {p : Position} {modes : List Mode} {pending pending' : Bool}
    (h : (⟨cs, p, modes, pending⟩ : Lexer).config? = none) :
    (⟨cs, p, modes, pending'⟩ : Lexer).config? = none := by
  rwa [config?_none_iff_lines] at h ⊢

theorem lines_head? {c : Char} (h : c ≠ '\n') (cs : List Char) :
    ∃ line, (lines (c :: cs)).head? = some (c :: line) := by
  rw [lines, if_neg h]
  cases lines cs <;> exact ⟨_, rfl⟩

/-- The first line is no fence if its first character is neither a blank nor a dash. -/
theorem config?_none {c : Char} {p : Position} {modes : List Mode} {pending : Bool}
    (hblank : Text.isBlank c = false) (hdash : c ≠ '-') :
    (⟨c :: cs, p, modes, pending⟩ : Lexer).config? = none := by
  have hline : c ≠ '\n' := by
    rintro rfl
    cases hblank
  obtain ⟨line, hlines⟩ := lines_head? hline cs
  rw [config?_none_iff_lines, List.dropWhile_cons_of_neg (by simp [hblank]), hlines]
  rintro _ ⟨⟩
  exact isFence_of_mem hblank hdash List.mem_cons_self

section
variable {x : List Char} {p : Position} {modes : List Mode}

theorem dropWhile_blanks_append (hx : x.dropWhile Text.isBlank ≠ []) (rest : List Char) :
    (x ++ rest).dropWhile Text.isBlank = x.dropWhile Text.isBlank ++ rest := by
  rw [List.dropWhile_append, if_neg (by rwa [List.isEmpty_iff])]

/-- What comes behind the first line does not matter. -/
theorem config?_none_of_feed {a : List Char} (hfeed : '\n' ∈ x.dropWhile Text.isBlank)
    (h : (⟨x ++ a, p, modes, false⟩ : Lexer).config? = none) (b : List Char) :
    (⟨x ++ b, p, modes, false⟩ : Lexer).config? = none := by
  have hx := List.ne_nil_of_mem hfeed
  rw [config?_none_iff_lines, dropWhile_blanks_append hx] at h ⊢
  obtain ⟨line, rest, hline, hnot⟩ := List.eq_append_cons_of_mem hfeed
  have hlines (more : List Char) :
      lines (x.dropWhile Text.isBlank ++ more) = (line ++ ['\n']) :: lines (rest ++ more) := by
    rw [hline, List.append_assoc]
    exact lines_append_first hnot rfl
  rw [hlines] at h ⊢
  exact h

/-- A character in the first line tells that it is no fence. -/
theorem config?_none_of_mem {c : Char} (hfeed : '\n' ∉ x.dropWhile Text.isBlank) (hc : c ∈ x)
    (hblank : Text.isBlank c = false) (hdash : c ≠ '-') (b : List Char) :
    (⟨x ++ b, p, modes, false⟩ : Lexer).config? = none := by
  have hmem : c ∈ x.dropWhile Text.isBlank := by
    rw [← List.takeWhile_append_dropWhile (p := Text.isBlank) (l := x)] at hc
    refine (List.mem_append.1 hc).resolve_left fun hfront => ?_
    rw [List.all_eq_true.mp List.all_takeWhile c hfront] at hblank
    cases hblank
  have hx := List.ne_nil_of_mem hmem
  rw [config?_none_iff_lines, dropWhile_blanks_append hx]
  obtain ⟨line, more, hlines⟩ := lines_append_cons hfeed hx b
  rw [hlines]
  rintro _ ⟨⟩
  exact isFence_of_mem hblank hdash (List.mem_append_left _ hmem)

/-- No section comes about where a slash is put into a text without one. -/
theorem config?_none_with {a : List Char}
    (h : (⟨x ++ a, p, modes, false⟩ : Lexer).config? = none) (b : List Char) :
    (⟨x ++ '/' :: b, p, modes, false⟩ : Lexer).config? = none := by
  by_cases hfeed : '\n' ∈ x.dropWhile Text.isBlank
  · exact config?_none_of_feed hfeed h _
  · have hslash : '\n' ∉ (x ++ ['/']).dropWhile Text.isBlank := by
      rw [List.dropWhile_append]
      split
      · decide
      · simpa using hfeed
    rw [show x ++ '/' :: b = x ++ ['/'] ++ b by simp]
    exact config?_none_of_mem hslash (by simp) (by decide : Text.isBlank '/' = false) (by decide) b

/-- Nor one by other text behind such a character. -/
theorem config?_none_behind {a : List Char} {c : Char} (hc : c ∈ x) (hblank : Text.isBlank c = false)
    (hdash : c ≠ '-') (h : (⟨x ++ a, p, modes, false⟩ : Lexer).config? = none) (b : List Char) :
    (⟨x ++ b, p, modes, false⟩ : Lexer).config? = none := by
  by_cases hfeed : '\n' ∈ x.dropWhile Text.isBlank
  · exact config?_none_of_feed hfeed h b
  · exact config?_none_of_mem hfeed hc hblank hdash b

end

end

end PromptTemplate.Lexer
