import PromptTemplate.Text.Blank
import PromptTemplate.Text.Letter

/-!
# Letters are no blanks

The classes of characters that names are made of, against the ones that end
them.
-/

namespace PromptTemplate.Text

def blankCodes : List Nat :=
  [9, 10, 11, 12, 13, 0x20, 0x85, 0xA0, 0x1680, 0x2000, 0x2001, 0x2002, 0x2003, 0x2004, 0x2005,
    0x2006, 0x2007, 0x2008, 0x2009, 0x200A, 0x2028, 0x2029, 0x202F, 0x205F, 0x3000]

theorem mem_blankCodes {c : Char} (h : isBlank c) : c.toNat ∈ blankCodes := by
  simp only [isBlank, Bool.or_eq_true, Bool.and_eq_true, decide_eq_true_eq] at h
  simp only [blankCodes, List.mem_cons, List.not_mem_nil, or_false]
  omega

theorem blankCodes_not_alphabetic : ∀ n ∈ blankCodes,
    (alphabeticRanges.toList.any fun r => r.1 ≤ n && n ≤ r.2) = false := by
  decide +kernel

theorem blankCodes_not_numeric : ∀ n ∈ blankCodes,
    (numericRanges.toList.any fun r => r.1 ≤ n && n ≤ r.2) = false := by
  decide +kernel

theorem blankCodes_not_ascii : ∀ n ∈ blankCodes, n < 128 →
    isIdentPart (Char.ofNat n) = false := by
  decide

theorem not_isIdentPart_of_isBlank {c : Char} (h : isBlank c) : isIdentPart c = false := by
  have hmem := mem_blankCodes h
  by_cases hascii : c.toNat < 128
  · have hnone := blankCodes_not_ascii _ hmem hascii
    rwa [Char.ofNat_toNat] at hnone
  · have hmarks : (c = '_') = False ∧ (c = '$') = False := by
      constructor <;> (rw [eq_iff_iff, iff_false]; rintro rfl; exact hascii (by decide))
    simp only [isIdentPart, isLetterOrNumber, hascii, if_false, hmarks, decide_false,
      Bool.or_false, inRanges, ← Array.any_toList, blankCodes_not_alphabetic _ hmem,
      blankCodes_not_numeric _ hmem]

theorem isIdentPart_of_isIdentStart {c : Char} (h : isIdentStart c) : isIdentPart c := by
  simp only [isIdentStart, isIdentPart, isLetter, isLetterOrNumber, Bool.or_eq_true] at h ⊢
  refine h.imp_left (Or.imp_left fun h => ?_)
  split at h
  · rename_i hascii
    simp [hascii, Char.isAlphanum, h]
  · rename_i hascii
    simp [hascii, h]

theorem not_isBlank_of_isIdentStart {c : Char} (h : isIdentStart c) : isBlank c = false := by
  cases hblank : isBlank c with
  | false => rfl
  | true =>
    have hpart := not_isIdentPart_of_isBlank hblank
    rw [isIdentPart_of_isIdentStart h] at hpart
    cases hpart

theorem mem_digits {c : Char} (h : c.isDigit) : c.toNat ∈ List.range' 48 10 := by
  simp only [Char.isDigit, Bool.and_eq_true, decide_eq_true_eq, ge_iff_le,
    UInt32.le_iff_toNat_le] at h
  rw [List.mem_range'_1]
  exact ⟨h.1, Nat.lt_succ_of_le h.2⟩

theorem not_isDigit_of_isIdentStart {c : Char} (h : isIdentStart c) : c.isDigit = false := by
  cases hdigit : c.isDigit with
  | false => rfl
  | true =>
    have hnone : ∀ n ∈ List.range' 48 10, isIdentStart (Char.ofNat n) = false := by decide
    have hnone := hnone _ (mem_digits hdigit)
    rw [Char.ofNat_toNat, h] at hnone
    cases hnone

theorem not_isBlank_of_isDigit {c : Char} (h : c.isDigit) : isBlank c = false := by
  have hnone : ∀ n ∈ List.range' 48 10, isBlank (Char.ofNat n) = false := by decide
  have hnone := hnone _ (mem_digits h)
  rwa [Char.ofNat_toNat] at hnone

theorem isIdentStart_of_isAlpha {c : Char} (h : c.isAlpha) : isIdentStart c := by
  have hascii : c.toNat < 128 := by
    change c.val.toNat < 128
    rcases (Bool.or_eq_true _ _).mp h with hupper | hlower
    · have hle : c.val ≤ 'Z'.val := (of_decide_eq_true hupper).2
      exact Nat.lt_of_le_of_lt (UInt32.le_iff_toNat_le.mp hle) (by decide)
    · have hle : c.val ≤ 'z'.val := of_decide_eq_true ((Bool.and_eq_true _ _).mp hlower).2
      exact Nat.lt_of_le_of_lt (UInt32.le_iff_toNat_le.mp hle) (by decide)
  simp [isIdentStart, isLetter, hascii, h]

theorem not_isBlank_of_isAlpha {c : Char} (h : c.isAlpha) : isBlank c = false :=
  not_isBlank_of_isIdentStart (isIdentStart_of_isAlpha h)

theorem not_isBlank_of_isAttributeStart {c : Char} (h : isAttributeStart c) : isBlank c = false := by
  simp only [isAttributeStart, Bool.or_eq_true, decide_eq_true_eq] at h
  rcases h with (h | rfl) | rfl
  · exact not_isBlank_of_isAlpha h
  · decide
  · decide

theorem isTagNamePart_of_isAttributeStart {c : Char} (h : isAttributeStart c) : isTagNamePart c := by
  simp only [isAttributeStart, Bool.or_eq_true, decide_eq_true_eq] at h
  rcases h with (h | rfl) | rfl
  · simp [isTagNamePart, Char.isAlphanum, h]
  · decide
  · decide

end PromptTemplate.Text
