import PromptTemplate.Number.Numeral

/-!
# Where numerals end

What is read of a numeral does not depend on what follows it, if that does not
go on with it; and what has been read of a text is a numeral on its own.
-/

namespace PromptTemplate.Number

-- ---------------------------------------------------------------------------
-- What follows
-- ---------------------------------------------------------------------------

/-- None of these characters goes on with a numeral. -/
def Ended (more : List Char) : Prop :=
  ∀ c ∈ more.head?, c.isDigit = false ∧ c ≠ '.' ∧ c ≠ 'e' ∧ c ≠ 'E' ∧ c ≠ '-' ∧ c ≠ '+'

variable {cs more : List Char}

theorem takeDigits_append (h : Ended more) :
    takeDigits (cs ++ more) = ((takeDigits cs).1, (takeDigits cs).2 ++ more) := by
  induction cs with
  | nil =>
    cases more with
    | nil => rfl
    | cons c more => simp [takeDigits, (h c rfl).1]
  | cons c cs ih =>
    cases hc : c.isDigit
    · simp [takeDigits, hc]
    · simpa [takeDigits, hc] using ih

theorem takeFraction_append (h : Ended more) :
    takeFraction (cs ++ more) = ((takeFraction cs).1, (takeFraction cs).2 ++ more) := by
  cases cs with
  | nil =>
    cases more with
    | nil => rfl
    | cons c more => simp [takeFraction, (h c rfl).2.1]
  | cons c cs =>
    by_cases hc : c = '.'
    · subst hc
      simp only [List.cons_append, takeFraction, takeDigits_append h]
      obtain ⟨_ | ⟨d, ds⟩, rest⟩ := takeDigits cs <;> rfl
    · simp [takeFraction, hc]

theorem takeSign_append (h : Ended more) :
    takeSign (cs ++ more) = ((takeSign cs).1, (takeSign cs).2 ++ more) := by
  cases cs with
  | nil =>
    cases more with
    | nil => rfl
    | cons c more => simp [takeSign, (h c rfl).2.2.2.2]
  | cons c cs =>
    by_cases hminus : c = '-'
    · subst hminus; rfl
    · by_cases hplus : c = '+'
      · subst hplus; rfl
      · simp [takeSign, hminus, hplus]

theorem takeExponent_append (h : Ended more) :
    takeExponent (cs ++ more) = ((takeExponent cs).1, (takeExponent cs).2 ++ more) := by
  cases cs with
  | nil =>
    cases more with
    | nil => rfl
    | cons c more => simp [takeExponent, (h c rfl).2.2]
  | cons c cs =>
    by_cases hmark : c = 'e' ∨ c = 'E'
    · simp only [List.cons_append, takeExponent, hmark, if_true, takeSign_append h,
        takeDigits_append h]
      obtain ⟨_ | ⟨d, ds⟩, rest⟩ := takeDigits (takeSign cs).2 <;> rfl
    · simp [takeExponent, hmark]

theorem takeNumeral_append (h : Ended more) :
    takeNumeral (cs ++ more) = ((takeNumeral cs).1, (takeNumeral cs).2 ++ more) := by
  simp [takeNumeral, takeDigits_append h, takeFraction_append h, takeExponent_append h]

theorem takeFraction_ended (h : Ended more) : takeFraction more = ([], more) :=
  @takeFraction_append [] more h

theorem takeExponent_ended (h : Ended more) : takeExponent more = (0, more) :=
  @takeExponent_append [] more h

-- ---------------------------------------------------------------------------
-- What has been read
-- ---------------------------------------------------------------------------

theorem takeDigits_digits {digits more : List Char} (hdigits : ∀ c ∈ digits, c.isDigit)
    (hmore : ∀ c ∈ more.head?, c.isDigit = false) :
    takeDigits (digits ++ more) = (digits, more) := by
  rw [takeDigits, List.takeWhile_append_of_pos hdigits, List.dropWhile_append_of_pos hdigits]
  cases more with
  | nil => simp
  | cons c more => simp [hmore c rfl]

theorem takeDigits_self {digits rest : List Char} (h : takeDigits cs = (digits, rest)) :
    cs = digits ++ rest ∧ (∀ c ∈ digits, c.isDigit) ∧
      ∀ more, (∀ c ∈ more.head?, c.isDigit = false) →
        takeDigits (digits ++ more) = (digits, more) := by
  simp only [takeDigits, Prod.mk.injEq] at h
  obtain ⟨rfl, rfl⟩ := h
  have hdigits : ∀ c ∈ cs.takeWhile Char.isDigit, c.isDigit :=
    List.all_eq_true.mp List.all_takeWhile
  exact ⟨List.takeWhile_append_dropWhile.symm, hdigits, fun _ => takeDigits_digits hdigits⟩

theorem takeFraction_self {fraction rest : List Char} (h : takeFraction cs = (fraction, rest)) :
    ∃ taken, cs = taken ++ rest ∧ (∀ c ∈ taken.head?, c = '.') ∧
      ∀ more, (∀ c ∈ more.head?, c.isDigit = false ∧ c ≠ '.') →
        takeFraction (taken ++ more) = (fraction, more) := by
  have hnone : takeFraction cs = ([], cs) → ∃ taken, cs = taken ++ rest ∧
      (∀ c ∈ taken.head?, c = '.') ∧ ∀ more, (∀ c ∈ more.head?, c.isDigit = false ∧ c ≠ '.') →
        takeFraction (taken ++ more) = (fraction, more) := by
    intro hnone
    rw [h, Prod.mk.injEq] at hnone
    obtain ⟨rfl, rfl⟩ := hnone
    refine ⟨[], rfl, nofun, fun more hmore => ?_⟩
    cases more with
    | nil => rfl
    | cons c more => simp [takeFraction, (hmore c rfl).2]
  cases cs with
  | nil => exact hnone rfl
  | cons c cs =>
    by_cases hc : c = '.'
    · subst hc
      rcases hdigits : takeDigits cs with ⟨_ | ⟨d, ds⟩, after⟩
      · exact hnone (by simp [takeFraction, hdigits])
      · simp only [takeFraction, hdigits, Prod.mk.injEq] at h
        obtain ⟨rfl, rfl⟩ := h
        obtain ⟨rfl, -, hself⟩ := takeDigits_self hdigits
        refine ⟨'.' :: d :: ds, rfl, by simp, fun more hmore => ?_⟩
        have hself := hself more fun c hc => (hmore c hc).1
        simp only [List.cons_append] at hself ⊢
        simp only [takeFraction, hself]
    · exact hnone (by simp [takeFraction, hc])

theorem takeSign_self (cs : List Char) : ∃ taken, cs = taken ++ (takeSign cs).2 ∧
    ∀ digits, (∀ c ∈ digits.head?, c.isDigit) →
      takeSign (taken ++ digits) = ((takeSign cs).1, digits) := by
  have hplain : ∀ digits : List Char, (∀ c ∈ digits.head?, c.isDigit) →
      takeSign digits = (false, digits) := by
    intro digits hdigits
    cases digits with
    | nil => rfl
    | cons d digits =>
      have hd : ∀ c, c.isDigit = false → d ≠ c := by
        rintro _ hc rfl
        rw [hdigits _ rfl] at hc
        cases hc
      simp [takeSign, hd '-' (by decide), hd '+' (by decide)]
  unfold takeSign
  split
  · exact ⟨['-'], rfl, fun _ _ => rfl⟩
  · exact ⟨['+'], rfl, fun _ _ => rfl⟩
  · exact ⟨[], rfl, hplain⟩

theorem takeExponent_self {exponent : Int} {rest : List Char}
    (h : takeExponent cs = (exponent, rest)) :
    ∃ taken, cs = taken ++ rest ∧ (∀ c ∈ taken.head?, c = 'e' ∨ c = 'E') ∧
      takeExponent taken = (exponent, []) := by
  have hnone : takeExponent cs = (0, cs) → ∃ taken, cs = taken ++ rest ∧
      (∀ c ∈ taken.head?, c = 'e' ∨ c = 'E') ∧ takeExponent taken = (exponent, []) := by
    intro hnone
    rw [h, Prod.mk.injEq] at hnone
    obtain ⟨rfl, rfl⟩ := hnone
    exact ⟨[], rfl, nofun, rfl⟩
  cases cs with
  | nil => exact hnone rfl
  | cons c cs =>
    by_cases hmark : c = 'e' ∨ c = 'E'
    · obtain ⟨sign, hsign, hself⟩ := takeSign_self cs
      rcases hdigits : takeDigits (takeSign cs).2 with ⟨_ | ⟨d, ds⟩, after⟩
      · exact hnone (by simp [takeExponent, hmark, hdigits])
      · simp only [takeExponent, hmark, if_true, hdigits, Prod.mk.injEq] at h
        obtain ⟨rfl, rfl⟩ := h
        obtain ⟨hsplit, hall, hdigits⟩ := takeDigits_self hdigits
        have hself := hself (d :: ds) fun c hc => hall c (List.mem_of_mem_head? hc)
        have hdigits := hdigits [] nofun
        rw [List.append_nil] at hdigits
        refine ⟨c :: (sign ++ d :: ds), ?_, by simpa using hmark, ?_⟩
        · rw [List.cons_append, List.append_assoc, ← hsplit, ← hsign]
        · simp [takeExponent, hmark, hself, hdigits]
    · exact hnone (by simp [takeExponent, hmark])

theorem takeNumeral_self {numeral : Numeral} {rest : List Char}
    (h : takeNumeral cs = (numeral, rest)) :
    ∃ taken, cs = taken ++ rest ∧ takeNumeral taken = (numeral, []) := by
  rcases hwhole : takeDigits cs with ⟨whole, cs'⟩
  rcases hfraction : takeFraction cs' with ⟨fraction, cs''⟩
  rcases hexponent : takeExponent cs'' with ⟨exponent, cs'''⟩
  simp only [takeNumeral, hwhole, hfraction, hexponent, Prod.mk.injEq] at h
  obtain ⟨rfl, rfl⟩ := h
  obtain ⟨rfl, -, hdigits⟩ := takeDigits_self hwhole
  obtain ⟨middle, rfl, hmiddle, hself⟩ := takeFraction_self hfraction
  obtain ⟨last, rfl, hlast, hlastSelf⟩ := takeExponent_self hexponent
  have hlast' : ∀ c ∈ last.head?, c.isDigit = false ∧ c ≠ '.' := by
    intro c hc
    rcases hlast c hc with rfl | rfl <;> decide
  refine ⟨whole ++ (middle ++ last), by simp, ?_⟩
  have hdigits := hdigits (middle ++ last) fun c hc => by
    cases middle with
    | nil => exact (hlast' c hc).1
    | cons d middle =>
      obtain rfl : d = c := by simpa using hc
      rw [hmiddle d rfl]
      decide
  simp [takeNumeral, hdigits, hself last hlast', hlastSelf]

-- ---------------------------------------------------------------------------
-- Without what has not been read
-- ---------------------------------------------------------------------------

/-- What has not been read may be cut off at the end. -/
def Cuts {α : Type} (take : List Char → α × List Char) : Prop :=
  ∀ cs x a found, take (cs ++ a) = (found, x ++ a) → take cs = (found, x)

theorem eq_nil_of_append {taken x a : List Char} (h : a = taken ++ (x ++ a)) :
    taken = [] ∧ x = [] := by
  have hlength := congrArg List.length h
  simp only [List.length_append] at hlength
  exact ⟨List.length_eq_zero_iff.1 (by omega), List.length_eq_zero_iff.1 (by omega)⟩

theorem takeWhile_cuts (q : Char → Bool) : Cuts fun cs => (cs.takeWhile q, cs.dropWhile q) := by
  intro cs x a run h
  simp only [Prod.mk.injEq] at h ⊢
  obtain ⟨rfl, hrest⟩ := h
  have hsplit := @List.takeWhile_append_dropWhile _ q (cs ++ a)
  rw [hrest, ← List.append_assoc] at hsplit
  generalize hrun : (cs ++ a).takeWhile q = run at hsplit
  obtain rfl := List.append_cancel_right hsplit
  have hall : ∀ c ∈ run, q c := hrun ▸ List.all_eq_true.mp List.all_takeWhile
  rw [List.takeWhile_append_of_pos hall, List.dropWhile_append_of_pos hall]
  cases x with
  | nil => simp
  | cons c x =>
    have hhead := List.head?_dropWhile_not q (run ++ c :: x ++ a)
    rw [hrest] at hhead
    simp [show q c = false from hhead]

theorem takeDigits_cuts : Cuts takeDigits := takeWhile_cuts Char.isDigit

theorem takeFraction_cuts : Cuts takeFraction := by
  intro cs x a fraction h
  cases cs with
  | nil =>
    obtain ⟨taken, hsplit, -, hself⟩ := takeFraction_self h
    obtain ⟨rfl, rfl⟩ := eq_nil_of_append hsplit
    exact hself [] nofun
  | cons c cs =>
    by_cases hc : c = '.'
    · subst hc
      rcases hdigits : takeDigits (cs ++ a) with ⟨_ | ⟨d, ds⟩, after⟩
      · obtain rfl : after = cs ++ a := (takeDigits_self hdigits).1.symm
        have hcut := takeDigits_cuts cs cs a _ hdigits
        simp only [List.cons_append, takeFraction, hdigits, Prod.mk.injEq] at h
        obtain ⟨rfl, hx⟩ := h
        obtain rfl : '.' :: cs = x := List.append_cancel_right hx
        simp only [takeFraction, hcut]
      · simp only [List.cons_append, takeFraction, hdigits, Prod.mk.injEq] at h
        obtain ⟨rfl, rfl⟩ := h
        simp only [takeFraction, takeDigits_cuts cs x a _ hdigits]
    · simp only [takeFraction, List.cons_append, List.cons.injEq, hc, false_and, imp_self,
        implies_true, Prod.mk.injEq] at h
      obtain ⟨rfl, hx⟩ := h
      obtain rfl : c :: cs = x := List.append_cancel_right hx
      simp [takeFraction, hc]

theorem takeSign_cons (c : Char) (cs a : List Char) :
    takeSign (c :: cs ++ a) = ((takeSign (c :: cs)).1, (takeSign (c :: cs)).2 ++ a) := by
  by_cases hminus : c = '-'
  · subst hminus; rfl
  · by_cases hplus : c = '+'
    · subst hplus; rfl
    · simp [takeSign, hminus, hplus]

theorem takeExponent_cuts : Cuts takeExponent := by
  intro cs x a exponent h
  cases cs with
  | nil =>
    obtain ⟨taken, hsplit, -, hself⟩ := takeExponent_self h
    obtain ⟨rfl, rfl⟩ := eq_nil_of_append hsplit
    exact hself
  | cons c cs =>
    by_cases hmark : c = 'e' ∨ c = 'E'
    · rcases hdigits : takeDigits (takeSign (cs ++ a)).2 with ⟨_ | ⟨d, ds⟩, after⟩
      · simp only [List.cons_append, takeExponent, hmark, if_true, hdigits, Prod.mk.injEq] at h
        obtain ⟨rfl, hx⟩ := h
        obtain rfl : c :: cs = x := List.append_cancel_right hx
        cases cs with
        | nil => simp [takeExponent, hmark, takeSign, takeDigits]
        | cons s cs =>
          rw [takeSign_cons] at hdigits
          obtain rfl : after = _ := (takeDigits_self hdigits).1.symm
          have hcut := takeDigits_cuts _ _ a _ hdigits
          simp only [takeExponent, hmark, if_true, hcut]
      · simp only [List.cons_append, takeExponent, hmark, if_true, hdigits, Prod.mk.injEq] at h
        obtain ⟨rfl, rfl⟩ := h
        cases cs with
        | nil =>
          obtain ⟨sign, hsign, -⟩ := takeSign_self a
          rw [List.nil_append] at hdigits
          rw [(takeDigits_self hdigits).1] at hsign
          obtain ⟨hnil, -⟩ := @eq_nil_of_append (sign ++ d :: ds) x a (by simpa using hsign)
          simp at hnil
        | cons s cs =>
          rw [takeSign_cons] at hdigits
          have hcut := takeDigits_cuts _ x a _ hdigits
          simp only [takeExponent, hmark, if_true, hcut, takeSign_cons]
    · simp only [List.cons_append, takeExponent, hmark, if_false, Prod.mk.injEq] at h
      obtain ⟨rfl, hx⟩ := h
      obtain rfl : c :: cs = x := List.append_cancel_right hx
      simp [takeExponent, hmark]

theorem takeNumeral_cuts : Cuts takeNumeral := by
  intro cs x a numeral h
  rcases hwhole : takeDigits (cs ++ a) with ⟨whole, behind⟩
  rcases hfraction : takeFraction behind with ⟨fraction, behind'⟩
  rcases hexponent : takeExponent behind' with ⟨exponent, behind''⟩
  simp only [takeNumeral, hwhole, hfraction, hexponent, Prod.mk.injEq] at h
  obtain ⟨rfl, rfl⟩ := h
  -- each piece leaves at least what the last one leaves
  obtain ⟨last, rfl, -⟩ := takeExponent_self hexponent
  rw [← List.append_assoc] at hexponent hfraction
  obtain ⟨middle, rfl, -⟩ := takeFraction_self hfraction
  rw [← List.append_assoc] at hfraction hwhole
  simp only [takeNumeral, takeDigits_cuts _ _ a _ hwhole, takeFraction_cuts _ _ a _ hfraction,
    takeExponent_cuts _ _ a _ hexponent]

end PromptTemplate.Number
