import Mathlib.Data.List.Forall2
import PromptTemplate.Proofs.Json.Quoted
import PromptTemplate.Proofs.Number.Numeral

/-!
# Reading what has been written

A text reads as a value if the reader takes the value from the front of the
text, whatever follows. Words, whole numbers and quoted strings read as
themselves, and arrays and objects as what their parts read as.
-/

namespace PromptTemplate

-- ---------------------------------------------------------------------------
-- Decimal digits
-- ---------------------------------------------------------------------------

namespace Number

theorem isDigit_of_mem_decimalChars {n : Nat} {c : Char} (h : c ∈ decimalChars n) : c.isDigit :=
  Nat.isDigit_of_mem_toDigits (by decide) (by decide) h

@[simp] theorem digitsToNat_decimalChars (n : Nat) : digitsToNat (decimalChars n) = n :=
  Nat.ofDigitChars_ten_toDigits

/-- No zero stands in front of other digits. -/
theorem head?_decimalChars {n : Nat} (h : 0 < n) : (decimalChars n).head? ≠ some '0' := by
  induction n using Nat.strongRecOn with
  | ind n ih =>
    rw [decimalChars, Nat.toDigits_eq_if (by decide)]
    split
    · simpa using Nat.ne_of_gt h
    · have hhead := ih (n / 10) (by omega) (by omega)
      have hsome : (Nat.toDigits 10 (n / 10)).head?.isSome :=
        List.isSome_head?.2 Nat.toDigits_ne_nil
      rwa [List.head?_append, Option.or_of_isSome hsome]

end Number

namespace Json

open Number (Ended decimalChars)

variable {more : List Char}

theorem wholeDigits?_decimalChars (n : Nat) (h : Ended more) :
    wholeDigits? (decimalChars n ++ more) = some (decimalChars n, more) := by
  have htake := Number.takeDigits_digits (fun _ => Number.isDigit_of_mem_decimalChars (n := n))
    fun c hc => (h c hc).1
  rcases Nat.eq_zero_or_pos n with rfl | hn
  · rw [wholeDigits?, htake]
    rfl
  · have hhead := Number.head?_decimalChars hn
    rw [wholeDigits?, htake]
    rcases hchars : decimalChars n with _ | ⟨d, ds⟩
    · exact absurd hchars Nat.toDigits_ne_nil
    · rw [hchars] at hhead
      have hd : d ≠ '0' := by simpa using hhead
      simp [hd]

/-- A whole number that stays whole is read to its end. -/
theorem number?_decimalChars {negative : Bool} {n : Nat} {json : Json}
    (hwhole : wholeNumber? negative n = some json) (h : Ended more) :
    number? negative (decimalChars n ++ more) = some (json, more) := by
  simp [number?, wholeDigits?_decimalChars n h, Number.takeFraction_ended h,
    Number.takeExponent_ended h, hwhole]

-- ---------------------------------------------------------------------------
-- Values in front
-- ---------------------------------------------------------------------------

/-- In front of whatever may follow a value, the text is read as `json`. -/
def Reads (depth : Nat) (text : String) (json : Json) : Prop :=
  ∀ more, Ended more → value? depth (text.toList ++ more) = some (json, more)

variable {depth : Nat} {text : String} {json : Json}

/-- What opens no array and no object is a scalar. -/
theorem value?_scalar {cs : List Char} (harray : cs.head? ≠ some '[')
    (hobject : cs.head? ≠ some '\x7b') : value? depth cs = scalar? cs := by
  rw [value?]
  · rintro _ rfl
    exact harray rfl
  · rintro _ rfl
    exact hobject rfl

theorem value?_digit {c : Char} (hc : c.isDigit) (cs : List Char) :
    value? depth (c :: cs) = number? false (c :: cs) := by
  have hne : ∀ d : Char, d.isDigit = false → c ≠ d := by
    rintro _ hd rfl
    rw [hc] at hd
    cases hd
  rw [value?_scalar (by simp [hne '[']) (by simp [hne '\x7b'])]
  simp [scalar?, hne 'n', hne 't', hne 'f', hne '"', hne '-']

theorem value?_eq_none {c : Char} (hc : isSpace c ∨ c = ']') (cs : List Char) :
    value? depth (c :: cs) = none := by
  simp only [isSpace, Bool.or_eq_true, decide_eq_true_eq] at hc
  rcases hc with (((rfl | rfl) | rfl) | rfl) | rfl <;> exact value?_scalar nofun nofun

theorem skipSpace_cons {c : Char} (hc : isSpace c = false) (cs : List Char) :
    skipSpace (c :: cs) = c :: cs := by
  simp [skipSpace, hc]

namespace Reads

theorem null (depth : Nat) : Reads depth "null" .null := fun _ _ => value?_scalar nofun nofun

theorem bool (depth : Nat) (b : Bool) : Reads depth (Json.bool b).text (.bool b) := fun _ _ => by
  cases b <;> exact value?_scalar nofun nofun

theorem quote (depth : Nat) (s : String) : Reads depth (quote s) (.string s) := fun more _ => by
  rw [toList_quote, List.cons_append, value?_scalar (by simp) (by simp)]
  simp [scalar?, string?_escaped]

theorem integer (depth : Nat) {n : Int} (h : n.natAbs < Number.twoTo 63) :
    Reads depth (Number.integerText n) (.int n) := fun more hmore => by
  unfold Number.integerText
  split
  · next hnegative =>
    have hn : -(n.natAbs : Int) = n := by omega
    have hwhole : wholeNumber? true n.natAbs = some (.int n) := by
      rw [wholeNumber?, if_pos rfl, if_pos ⟨by omega, Nat.le_of_lt h⟩, hn]
    rw [value?_scalar (by simp) (by simp)]
    simp [Number.decimalText, scalar?, number?_decimalChars hwhole hmore]
  · next hpositive =>
    have hn : (n.natAbs : Int) = n := by omega
    have hlimit : n.natAbs < Number.wordLimit := Nat.lt_trans h (by decide)
    have hwhole : wholeNumber? false n.natAbs = some (.int n) := by
      rw [wholeNumber?, if_neg Bool.false_ne_true, if_pos hlimit, hn]
    rw [Number.decimalText, String.toList_ofList]
    rcases hchars : decimalChars n.natAbs with _ | ⟨c, cs⟩
    · exact absurd hchars Nat.toDigits_ne_nil
    · have hc : c.isDigit := Number.isDigit_of_mem_decimalChars (hchars ▸ List.mem_cons_self)
      rw [List.cons_append, value?_digit hc, ← List.cons_append, ← hchars]
      exact number?_decimalChars hwhole hmore

/-- No value begins with a blank or with the end of an array. -/
theorem front (h : Reads depth text json) :
    ∃ c cs, text.toList = c :: cs ∧ isSpace c = false ∧ c ≠ ']' := by
  have hread := h [] nofun
  rw [List.append_nil] at hread
  cases htext : text.toList with
  | nil =>
    rw [htext, value?_scalar (by simp) (by simp)] at hread
    cases hread
  | cons c cs =>
    have hc : ¬ (isSpace c ∨ c = ']') := by
      intro hc
      rw [htext, value?_eq_none hc] at hread
      cases hread
    obtain ⟨hspace, hclose⟩ := not_or.1 hc
    exact ⟨c, cs, rfl, by simpa using hspace, hclose⟩

theorem skipSpace (h : Reads depth text json) (more : List Char) :
    skipSpace (text.toList ++ more) = text.toList ++ more := by
  obtain ⟨c, cs, htext, hspace, -⟩ := h.front
  rw [htext, List.cons_append, skipSpace_cons hspace]

theorem ne_close (h : Reads depth text json) (more rest : List Char) :
    text.toList ++ more ≠ ']' :: rest := by
  obtain ⟨c, cs, htext, -, hclose⟩ := h.front
  rw [htext, List.cons_append]
  exact fun heq => hclose (List.cons.inj heq).1

end Reads

-- ---------------------------------------------------------------------------
-- Arrays and objects
-- ---------------------------------------------------------------------------

theorem ended_symbol {c : Char} (hc : c = ',' ∨ c = ']' ∨ c = '\x7d') (more : List Char) :
    Ended (c :: more) := by
  rintro _ ⟨⟩
  rcases hc with rfl | rfl | rfl <;> decide

theorem toList_commaSeparated_cons (text next : String) (texts : List String) (cs : List Char) :
    (commaSeparated (text :: next :: texts)).toList ++ cs =
      text.toList ++ ',' :: ((commaSeparated (next :: texts)).toList ++ cs) := by
  rw [commaSeparated, String.intercalate_cons_cons]
  simp [commaSeparated]

theorem exists_commaSeparated_cons (text : String) (texts : List String) :
    ∃ rest, commaSeparated (text :: texts) = text ++ rest := by
  cases texts with
  | nil => exact ⟨"", by simp [commaSeparated]⟩
  | cons next texts =>
    rw [commaSeparated, String.intercalate_cons_cons, String.append_assoc]
    exact ⟨_, rfl⟩

/-- The budget only has to be above the length of the text. -/
theorem items?_commaSeparated {texts : List String} {items : List Json}
    (h : List.Forall₂ (Reads depth) texts items) (hne : texts ≠ []) (more : List Char)
    {budget : Nat}
    (hbudget : ((commaSeparated texts).toList ++ ']' :: more).length < budget) :
    items? (value? depth) budget ((commaSeparated texts).toList ++ ']' :: more) =
      some (items, more) := by
  induction h generalizing budget with
  | nil => exact absurd rfl hne
  | @cons text json texts items hfirst hrest ih =>
    obtain ⟨budget, rfl⟩ := Nat.exists_eq_succ_of_ne_zero (Nat.ne_zero_of_lt hbudget)
    rcases texts with _ | ⟨next, texts⟩
    · cases hrest
      have hread := hfirst (']' :: more) (ended_symbol (by simp) more)
      rw [commaSeparated, String.intercalate_singleton, items?, hfirst.skipSpace, hread]
      rfl
    · rw [toList_commaSeparated_cons] at hbudget ⊢
      have hshorter : ((commaSeparated (next :: texts)).toList ++ ']' :: more).length < budget := by
        simp only [List.length_append, List.length_cons] at hbudget ⊢
        omega
      have hmore := ih (List.cons_ne_nil _ _) hshorter
      rw [items?, hfirst.skipSpace]
      simp [hfirst _ (ended_symbol (.inl rfl) _), skipSpace_cons, isSpace, hmore]

/-- The text of a field, key and value. -/
def ReadsField (depth : Nat) (text : String) (field : String × Json) : Prop :=
  ∃ value, text = fieldText field.1 value ∧ Reads depth value field.2

theorem fields?_commaSeparated {texts : List String} {fields : List (String × Json)}
    (h : List.Forall₂ (ReadsField depth) texts fields) (hne : texts ≠ []) (more : List Char)
    {budget : Nat}
    (hbudget : ((commaSeparated texts).toList ++ '\x7d' :: more).length < budget) :
    fields? (value? depth) budget ((commaSeparated texts).toList ++ '\x7d' :: more) =
      some (fields, more) := by
  induction h generalizing budget with
  | nil => exact absurd rfl hne
  | @cons text field texts fields hfirst hrest ih =>
    obtain ⟨budget, rfl⟩ := Nat.exists_eq_succ_of_ne_zero (Nat.ne_zero_of_lt hbudget)
    obtain ⟨value, rfl, hvalue⟩ := hfirst
    have hkey : ∀ cs, (fieldText field.1 value).toList ++ cs =
        '"' :: (field.1.toList.flatMap escapeChar ++ '"' :: ':' :: (value.toList ++ cs)) := by
      simp [fieldText]
    rcases texts with _ | ⟨next, texts⟩
    · cases hrest
      have hread := hvalue ('\x7d' :: more) (ended_symbol (by simp) more)
      rw [commaSeparated, String.intercalate_singleton, hkey, fields?]
      simp [skipSpace_cons, isSpace, afterWord?, string?_escaped, hvalue.skipSpace, hread]
    · rw [toList_commaSeparated_cons] at hbudget ⊢
      have hshorter :
          ((commaSeparated (next :: texts)).toList ++ '\x7d' :: more).length < budget := by
        simp only [List.length_append, List.length_cons] at hbudget ⊢
        omega
      have hmore := ih (List.cons_ne_nil _ _) hshorter
      rw [hkey, fields?]
      simp [skipSpace_cons, isSpace, afterWord?, string?_escaped, hvalue.skipSpace,
        hvalue _ (ended_symbol (.inl rfl) _), hmore]

theorem Reads.array {texts : List String} {items : List Json}
    (h : List.Forall₂ (Reads depth) texts items) :
    Reads (depth + 1) (arrayText texts) (.array items) := by
  intro more hmore
  have htext : (arrayText texts).toList ++ more =
      '[' :: ((commaSeparated texts).toList ++ ']' :: more) := by
    simp [arrayText]
  rw [htext, value?]
  rcases texts with _ | ⟨text, texts⟩
  · cases h
    simp [commaSeparated, skipSpace_cons, isSpace]
  · have hread := items?_commaSeparated h (List.cons_ne_nil _ _) more (Nat.lt_succ_self _)
    obtain ⟨rest, hrest⟩ := exists_commaSeparated_cons text texts
    cases h with
    | cons hfirst =>
      simp only [hrest, String.toList_append, List.append_assoc] at hread ⊢
      rw [hfirst.skipSpace]
      split
      · next heq => exact absurd heq (hfirst.ne_close _ _)
      · rw [hread]
        rfl

/-- The fields of an object are sorted as they are read. -/
theorem Reads.object {texts : List String} {fields : List (String × Json)}
    (h : List.Forall₂ (ReadsField depth) texts fields) :
    Reads (depth + 1) (objectText texts) (.object (sortFields fields)) := by
  intro more hmore
  have htext : (objectText texts).toList ++ more =
      '\x7b' :: ((commaSeparated texts).toList ++ '\x7d' :: more) := by
    simp [objectText]
  rw [htext, value?]
  rcases texts with _ | ⟨text, texts⟩
  · cases h
    simp [commaSeparated, skipSpace_cons, isSpace, sortFields]
  · have hread := fields?_commaSeparated h (List.cons_ne_nil _ _) more (Nat.lt_succ_self _)
    obtain ⟨rest, hrest⟩ := exists_commaSeparated_cons text texts
    cases h with
    | cons hfirst =>
      obtain ⟨value, rfl, -⟩ := hfirst
      rw [hrest] at hread ⊢
      simp only [fieldText, String.toList_append, toList_quote, List.append_assoc,
        List.cons_append] at hread ⊢
      rw [skipSpace_cons (by decide)]
      split
      · next heq => simp at heq
      · rw [hread]
        rfl

/-- A text that reads as a value is read as that value when it stands alone. -/
theorem Reads.alone (h : Reads depthLimit text json) : read? text = some json := by
  have hfront := h.skipSpace []
  have hread := h [] nofun
  rw [List.append_nil] at hfront hread
  rw [read?, hfront, hread]
  rfl

end Json

end PromptTemplate
