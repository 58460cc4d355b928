import PromptTemplate.Json.Printer
import PromptTemplate.Json.Reader

/-!
# Quoted strings

A string that has been written between quotes is read as it was, whatever
characters it has and whatever follows it.
-/

namespace PromptTemplate

-- ---------------------------------------------------------------------------
-- Hexadecimal digits
-- ---------------------------------------------------------------------------

namespace Text

theorem hexValue?_digitChar {d : Nat} (h : d < 16) : hexValue? (Nat.digitChar d) = some d :=
  (by decide : ∀ d < 16, hexValue? (Nat.digitChar d) = some d) d h

/-- Digits that have been written are read as the last digits of the number. -/
theorem takeHex?_go_hexDigits (width more m n : Nat) (cs : List Char) :
    takeHex?.go (width + more) m (hexDigits width n ++ cs) =
      takeHex?.go more (Nat.pow 16 width * m + n % Nat.pow 16 width) cs := by
  simp only [Nat.pow_eq]
  induction width generalizing more n cs with
  | zero => simp [hexDigits, Nat.mod_one]
  | succ width ih =>
    have hdigit := hexValue?_digitChar (Nat.mod_lt n (by decide : 0 < 16))
    have hvalue : 16 * (16 ^ width * m + n / 16 % 16 ^ width) + n % 16 =
        16 ^ (width + 1) * m + n % 16 ^ (width + 1) := by
      rw [Nat.pow_succ', Nat.mod_mul, Nat.mul_add, Nat.mul_assoc]
      omega
    rw [hexDigits, List.append_assoc, Nat.add_right_comm, Nat.add_assoc, ih]
    simp only [List.singleton_append, takeHex?.go, hdigit, hvalue]

theorem takeHex?_hexDigits (width : Nat) {n : Nat} (h : n < Nat.pow 16 width) (cs : List Char) :
    takeHex? width (hexDigits width n ++ cs) = some (n, cs) := by
  have hgo := takeHex?_go_hexDigits width 0 0 n cs
  rw [Nat.mod_eq_of_lt h] at hgo
  simpa [takeHex?, takeHex?.go] using hgo

@[simp] theorem charOfCode?_toNat (c : Char) : charOfCode? c.toNat = some c := by
  have hvalid : c.toNat.isValidChar := c.valid
  rw [charOfCode?, if_pos hvalid, Char.ofNat_toNat]

end Text

namespace Json

-- ---------------------------------------------------------------------------
-- One character
-- ---------------------------------------------------------------------------

theorem escaped?_hexDigits {c : Char} (h : c.toNat < 32) (more : List Char) :
    escaped? ('u' :: Text.hexDigits 4 c.toNat ++ more) = some (c, more) := by
  have hdigits : c.toNat < Nat.pow 16 4 := Nat.lt_of_lt_of_le h (by decide)
  have hplain : ¬ (0xD800 ≤ c.toNat ∧ c.toNat < 0xDC00) := by omega
  simp [escaped?, Text.takeHex?_hexDigits 4 hdigits, pairedChar?, hplain]

/-- A character is written as itself if it needs no escape, and otherwise as
one that is read as the character. -/
theorem escapeChar_cases (c : Char) :
    (escapeChar c = [c] ∧ c ≠ '"' ∧ c ≠ '\\' ∧ ¬ c.toNat < 32) ∨
      ∃ escape, escapeChar c = '\\' :: escape ∧
        ∀ more, escaped? (escape ++ more) = some (c, more) := by
  unfold escapeChar
  split
  · next h => exact .inr ⟨['"'], rfl, by simp [escaped?, h]⟩
  split
  · next h => exact .inr ⟨['\\'], rfl, by simp [escaped?, h]⟩
  split
  · next h => exact .inr ⟨['n'], rfl, by simp [escaped?, h]⟩
  split
  · next h => exact .inr ⟨['r'], rfl, by simp [escaped?, h]⟩
  split
  · next h => exact .inr ⟨['t'], rfl, by simp [escaped?, h]⟩
  split
  · next h =>
    obtain rfl : c = '\x08' := Char.toNat_inj.mp h
    exact .inr ⟨['b'], rfl, fun _ => rfl⟩
  split
  · next h =>
    obtain rfl : c = '\x0c' := Char.toNat_inj.mp h
    exact .inr ⟨['f'], rfl, fun _ => rfl⟩
  split
  · next h => exact .inr ⟨_, rfl, escaped?_hexDigits h⟩
  · exact .inl ⟨rfl, ‹_›, ‹_›, ‹_›⟩

-- ---------------------------------------------------------------------------
-- Strings
-- ---------------------------------------------------------------------------

/-- The budget only has to be above the length of the text. -/
theorem stringRest?_escaped {cs more : List Char} {budget : Nat}
    (h : (cs.flatMap escapeChar ++ '"' :: more).length < budget) :
    stringRest? budget (cs.flatMap escapeChar ++ '"' :: more) = some (cs, more) := by
  induction cs generalizing budget with
  | nil =>
    obtain ⟨budget, rfl⟩ := Nat.exists_eq_succ_of_ne_zero (Nat.ne_zero_of_lt h)
    simp [stringRest?]
  | cons c cs ih =>
    obtain ⟨budget, rfl⟩ := Nat.exists_eq_succ_of_ne_zero (Nat.ne_zero_of_lt h)
    rw [List.flatMap_cons, List.append_assoc] at h ⊢
    rcases escapeChar_cases c with ⟨hself, hquote, hslash, hcontrol⟩ | ⟨escape, hescape, hread⟩
    · rw [hself, List.singleton_append] at h ⊢
      have hrest := ih (Nat.lt_of_succ_lt_succ h)
      simp [stringRest?, hquote, hslash, hcontrol, hrest]
    · rw [hescape, List.cons_append] at h ⊢
      have hshorter : (cs.flatMap escapeChar ++ '"' :: more).length < budget := by
        simp only [List.length_cons, List.length_append] at h ⊢
        omega
      have hrest := ih hshorter
      simp [stringRest?, hread, hrest]

theorem string?_escaped (s : String) (more : List Char) :
    string? (s.toList.flatMap escapeChar ++ '"' :: more) = some (s, more) := by
  rw [string?, stringRest?_escaped (Nat.lt_succ_self _)]
  simp

@[simp] theorem toList_quote (s : String) :
    (quote s).toList = '"' :: (s.toList.flatMap escapeChar ++ ['"']) := by
  simp [quote]

end Json

end PromptTemplate
