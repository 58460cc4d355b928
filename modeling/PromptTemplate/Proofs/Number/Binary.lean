import Mathlib
import PromptTemplate.Number.Binary

/-!
# Floats by their bits

The equality of floats is symmetric and transitive, and reflexive except on NaN. A float is finite
if it has parts, and the parts give its bits. So an integer that a float stands for is turned back
into the same number, if it is below `2 ^ 53` (`ofInt_of_integer?`).
-/

namespace PromptTemplate.Number

-- ---------------------------------------------------------------------------
-- Equality
-- ---------------------------------------------------------------------------

theorem beq_comm (x y : Float) : (x == y) = (y == x) := by
  rw [Bool.eq_iff_iff, Float.beq_iff_ne_nan_and_eq, Float.beq_iff_ne_nan_and_eq]
  grind

theorem beq_trans {x y z : Float} (h : x == y) (h' : y == z) : x == z := by
  rw [Float.beq_iff_ne_nan_and_eq] at *
  grind

theorem beq_self_iff {x : Float} : (x == x) = true ↔ x.isNaN = false := by
  rw [Float.beq_self_iff, Float.isNaN_eq_decide_eq_nan, decide_eq_false_iff_not]

-- ---------------------------------------------------------------------------
-- The parts of a float
-- ---------------------------------------------------------------------------

section
open Float.Model

theorem toNat_unpackExponent (x : Float) :
    (@UnpackedFloat.unpackExponent .binary64 x.toBits.toBitVec).toNat =
      x.toBits.toNat / twoTo 52 % 2048 := by
  simp only [UnpackedFloat.unpackExponent, BitVec.toNat_cast, BitVec.extractLsb,
    BitVec.extractLsb'_toNat, UInt64.toNat_toBitVec, Nat.shiftRight_eq_div_pow]

/-- The floats with parts are the finite ones. -/
theorem isFinite_eq_isSome (x : Float) : x.isFinite = (binary? x).isSome := by
  have hexponent := toNat_unpackExponent x
  show (UnpackedFloat.unpack .binary64 x.toBits.toBitVec).isFinite = _
  by_cases h : @UnpackedFloat.unpackExponent .binary64 x.toBits.toBitVec = -1#11
  · have hbiased : x.toBits.toNat / twoTo 52 % 2048 = 2047 := by
      rw [← hexponent, h]
      rfl
    simp only [binary?, hbiased, UnpackedFloat.unpack, h, if_true]
    split <;> rfl
  · have hbiased : x.toBits.toNat / twoTo 52 % 2048 ≠ 2047 := fun hbiased =>
      h (BitVec.eq_of_toNat_eq (by rw [hexponent, hbiased]; rfl))
    have hsome : (binary? x).isSome = true := by
      simp only [binary?, hbiased, if_false]
      split <;> rfl
    rw [hsome]
    simp only [UnpackedFloat.unpack, h, if_false]
    split
    · split <;> rfl
    · rfl

theorem isNaN_of_binary? {x : Float} {b : Binary} (h : binary? x = some b) : x.isNaN = false := by
  have hfinite : (UnpackedFloat.unpack .binary64 x.toBits.toBitVec).isFinite = true :=
    (isFinite_eq_isSome x).trans (by rw [h, Option.isSome_some])
  show (UnpackedFloat.unpack .binary64 x.toBits.toBitVec).isNaN = false
  generalize UnpackedFloat.unpack .binary64 x.toBits.toBitVec = unpacked at hfinite
  cases unpacked with
  | notANumber => exact nomatch (show false = true from hfinite)
  | _ => rfl

end

/-- A float has the bits that its parts stand for. -/
theorem ofBitPattern_of_binary? {x : Float} {b : Binary} (h : binary? x = some b) :
    ∃ biased fraction, fraction < twoTo 52 ∧
      x = ofBitPattern b.negative (biased * twoTo 52 + fraction) ∧
      (biased = 0 ∧ b.mantissa = fraction ∧ b.exponent = -1074 ∨
        0 < biased ∧ b.mantissa = fraction + twoTo 52 ∧ b.exponent = biased - 1075) := by
  have hbits : x = ofBitPattern (decide (signBit ≤ x.toBits.toNat))
      (x.toBits.toNat / twoTo 52 % 2048 * twoTo 52 + x.toBits.toNat % twoTo 52) := by
    have hlt : x.toBits.toNat < twoTo 64 := x.toBits.toNat_lt
    have hnat : x.toBits.toNat = if decide (signBit ≤ x.toBits.toNat) then
        x.toBits.toNat / twoTo 52 % 2048 * twoTo 52 + x.toBits.toNat % twoTo 52 + signBit
        else x.toBits.toNat / twoTo 52 % 2048 * twoTo 52 + x.toBits.toNat % twoTo 52 := by
      by_cases hsign : signBit ≤ x.toBits.toNat
      · simp only [hsign, decide_true, if_true]
        simp only [signBit, twoTo, Nat.pow_eq] at *
        omega
      · simp only [hsign, decide_false, Bool.false_eq_true, if_false]
        simp only [signBit, twoTo, Nat.pow_eq] at *
        omega
    rw [ofBitPattern, ← hnat, UInt64.ofNat_toNat, Float.ofBits_toBits]
  refine ⟨x.toBits.toNat / twoTo 52 % 2048, x.toBits.toNat % twoTo 52, Nat.mod_lt _ (by decide), ?_⟩
  simp only [binary?] at h
  split at h
  · cases h
  · split at h
    · cases h
      exact ⟨hbits, .inl ⟨‹_›, rfl, rfl⟩⟩
    · cases h
      exact ⟨hbits, .inr ⟨Nat.pos_of_ne_zero ‹_›, rfl, rfl⟩⟩

-- ---------------------------------------------------------------------------
-- Integers
-- ---------------------------------------------------------------------------

theorem divideToEven_double (n : Nat) : divideToEven (2 * n) 2 = n := by
  simp [divideToEven]

theorem twoTo_add (a b : Nat) : twoTo (a + b) = twoTo a * twoTo b := Nat.pow_add 2 a b

/-- Moved up to the top of a mantissa, an integer is as long as one. -/
theorem top_bounds {n : Nat} (hpos : n ≠ 0) (hlog : n.log2 ≤ 52) :
    twoTo 52 ≤ n * twoTo (52 - n.log2) ∧ n * twoTo (52 - n.log2) < twoTo 53 := by
  constructor
  · calc twoTo 52 = twoTo n.log2 * twoTo (52 - n.log2) := by
          rw [← twoTo_add, Nat.add_sub_cancel' hlog]
      _ ≤ n * twoTo (52 - n.log2) := Nat.mul_le_mul_right _ (Nat.log2_self_le hpos)
  · calc n * twoTo (52 - n.log2) < twoTo (n.log2 + 1) * twoTo (52 - n.log2) :=
          Nat.mul_lt_mul_of_pos_right Nat.lt_log2_self (Nat.two_pow_pos _)
      _ = twoTo 53 := by
          rw [← twoTo_add]
          congr 1
          omega

theorem log2_le_of_lt {n : Nat} (hpos : n ≠ 0) (hlt : n < twoTo 53) : n.log2 ≤ 52 :=
  Nat.lt_succ_iff.mp ((Nat.log2_lt hpos).mpr hlt)

theorem places_of_log2 {size : Nat} (hsize : size ≤ 52) :
    max ((size : Int) - (Nat.log2 1 : Nat) - 53) (-1074) = size - 53 ∧
      (-((size : Int) - 53)).toNat = 1 + (52 - size) ∧ ((size : Int) - 53).toNat = 0 ∧
      ((size : Int) - 53 + 1 + 1074).toNat = size + 1022 := by
  rw [show Nat.log2 1 = 0 by decide]
  omega

theorem bits_le_infinity {size top : Nat} (hsize : size ≤ 52) (htop : top < twoTo 53) :
    (size + 1022) * twoTo 52 + top ≤ infinityBits := by
  have hdouble : top < 2 * twoTo 52 := htop
  unfold infinityBits
  generalize twoTo 52 = unit at hdouble
  calc (size + 1022) * unit + top ≤ 1074 * unit + 2 * unit :=
        Nat.add_le_add (Nat.mul_le_mul_right _ (Nat.add_le_add_right hsize 1022))
          (Nat.le_of_lt hdouble)
    _ = 1076 * unit := (Nat.add_mul 1074 2 unit).symm
    _ ≤ 2047 * unit := Nat.mul_le_mul_right _ (by decide)

/-- The float nearest to an integer that is no longer than a mantissa has the bits of the integer,
moved up to the top of the mantissa. -/
theorem nearestRatio_of_lt {n : Nat} (hpos : n ≠ 0) (hlt : n < twoTo 53) (negative : Bool) :
    nearestRatio negative n 1 =
      ofBitPattern negative ((n.log2 + 1022) * twoTo 52 + n * twoTo (52 - n.log2)) := by
  have hlog := log2_le_of_lt hpos hlt
  obtain ⟨hleast, hmost⟩ := top_bounds hpos hlog
  obtain ⟨hlow, hup, hdown, hexponent⟩ := places_of_log2 hlog
  unfold nearestRatio
  -- The packing is kept out of the way, so that it is not computed.
  generalize ofBitPattern negative = pack
  rw [if_neg hpos, hlow]
  extract_lets low scaled unit
  have hunit : unit = 1 := congrArg (1 * twoTo ·) hdown
  have hscaled : scaled = 2 * (n * twoTo (52 - n.log2)) := by
    rw [show scaled = n * twoTo (1 + (52 - n.log2)) from congrArg (n * twoTo ·) hup, twoTo_add,
      Nat.mul_left_comm]
  have hfits : unit * twoTo 53 ≤ scaled := by
    rw [hunit, hscaled, show 1 * twoTo 53 = 2 * twoTo 52 by decide]
    exact Nat.mul_le_mul_left 2 hleast
  rw [if_pos hfits]
  dsimp only
  rw [hexponent, hscaled, hunit, divideToEven_double, Nat.min_eq_left (bits_le_infinity hlog hmost)]

/-- An integer that is a mantissa when it is moved up is moved up to the top. -/
theorem log2_of_mantissa {n places mantissa : Nat} (h : n * twoTo places = mantissa)
    (hleast : twoTo 52 ≤ mantissa) (hmost : mantissa < twoTo 53) : n.log2 + places = 52 := by
  have hpos : n ≠ 0 := by
    rintro rfl
    rw [Nat.zero_mul] at h
    exact absurd (h ▸ hleast) (by decide)
  have hlow : twoTo (n.log2 + places) < twoTo 53 := by
    rw [twoTo_add]
    exact Nat.lt_of_le_of_lt (Nat.mul_le_mul_right _ (Nat.log2_self_le hpos)) (h ▸ hmost)
  have hhigh : twoTo 52 < twoTo (n.log2 + 1 + places) := by
    rw [twoTo_add]
    exact Nat.lt_of_le_of_lt (h ▸ hleast)
      (Nat.mul_lt_mul_of_pos_right Nat.lt_log2_self (Nat.two_pow_pos _))
  have := (Nat.pow_lt_pow_iff_right (by decide : 1 < 2)).mp hlow
  have := (Nat.pow_lt_pow_iff_right (by decide : 1 < 2)).mp hhigh
  omega

theorem Binary.toInt?_spec {b : Binary} {n : Int} (h : b.toInt? = some n) :
    n.natAbs * b.ratio.2 = b.ratio.1 ∧ (n ≠ 0 → b.negative = decide (n < 0)) := by
  unfold Binary.toInt? at h
  dsimp only at h
  split at h
  case isFalse => cases h
  case isTrue hmod =>
    have hdiv := Nat.div_mul_cancel (Nat.dvd_of_mod_eq_zero hmod)
    generalize b.ratio.1 / b.ratio.2 = size at h hdiv
    cases hnegative : b.negative
    · obtain rfl : (size : Int) = n := by simpa [hnegative] using h
      exact ⟨hdiv, fun _ => by simp⟩
    · obtain rfl : -(size : Int) = n := by simpa [hnegative] using h
      refine ⟨by rwa [Int.natAbs_neg, Int.natAbs_natCast], fun hpos => ?_⟩
      exact (decide_eq_true (by omega : -(size : Int) < 0)).symm

/-- What the parts of a float are that stands for an integer below `2 ^ 53`, other than zero. -/
theorem parts_of_toInt? {b : Binary} {n : Int} {biased fraction : Nat}
    (hfraction : fraction < twoTo 52)
    (hparts : biased = 0 ∧ b.mantissa = fraction ∧ b.exponent = -1074 ∨
      0 < biased ∧ b.mantissa = fraction + twoTo 52 ∧ b.exponent = biased - 1075)
    (h : b.toInt? = some n) (hpos : n ≠ 0) (hlt : n.natAbs < twoTo 53) :
    biased = n.natAbs.log2 + 1023 ∧
      n.natAbs * twoTo (52 - n.natAbs.log2) = fraction + twoTo 52 := by
  have hratio := (Binary.toInt?_spec h).1
  rcases hparts with ⟨-, hmantissa, hexponent⟩ | ⟨-, hmantissa, hexponent⟩
  · -- Below the normal floats there are no integers.
    have hplaces : 52 ≤ (-b.exponent).toNat := by omega
    rw [Binary.ratio, if_neg (by omega)] at hratio
    have hle : twoTo 52 ≤ n.natAbs * twoTo (-b.exponent).toNat :=
      Nat.le_trans (Nat.pow_le_pow_right Nat.two_pos hplaces)
        (Nat.le_mul_of_pos_left _ (Int.natAbs_pos.mpr hpos))
    rw [show n.natAbs * twoTo (-b.exponent).toNat = fraction from hratio.trans hmantissa] at hle
    exact absurd hle (Nat.not_le.mpr hfraction)
  · have hmost : fraction + twoTo 52 < twoTo 53 := by
      rw [show twoTo 53 = twoTo 52 + twoTo 52 by decide]
      exact Nat.add_lt_add_right hfraction _
    have hplaces : ∃ places : Nat, n.natAbs * twoTo places = fraction + twoTo 52 ∧
        (places : Int) = 1075 - biased := by
      unfold Binary.ratio at hratio
      split at hratio <;> dsimp only at hratio
      · -- The integer would have more digits than fit.
        have hzero : b.exponent.toNat = 0 := by
          by_contra hne
          obtain ⟨more, hmore⟩ := Nat.exists_eq_succ_of_ne_zero hne
          refine absurd hlt (Nat.not_lt.mpr ?_)
          calc twoTo 53 = twoTo 52 * twoTo 1 := by decide
            _ ≤ b.mantissa * twoTo b.exponent.toNat :=
              Nat.mul_le_mul (hmantissa ▸ Nat.le_add_left _ _)
                (Nat.pow_le_pow_right (by decide) (by omega))
            _ = n.natAbs := by rw [← hratio, Nat.mul_one]
        refine ⟨0, ?_, by omega⟩
        rw [hzero] at hratio
        simpa [hmantissa] using hratio
      · exact ⟨(-b.exponent).toNat, hratio.trans hmantissa, by omega⟩
    obtain ⟨places, hn, hplaces⟩ := hplaces
    have hlog := log2_of_mantissa hn (Nat.le_add_left _ _) hmost
    refine ⟨by omega, ?_⟩
    rw [show 52 - n.natAbs.log2 = places by omega, hn]

theorem bits_of_parts (size fraction : Nat) :
    (size + 1022) * twoTo 52 + (fraction + twoTo 52) = (size + 1023) * twoTo 52 + fraction := by
  generalize twoTo 52 = unit
  grind

/-- An integer that a float stands for is turned back into the same number, if it is below
`2 ^ 53`. Both zeros are zero. -/
theorem ofInt_of_integer? {x : Float} {n : Int} (h : integer? x = some n)
    (hlt : n.natAbs < twoTo 53) : ofInt n == x := by
  obtain ⟨b, hb, hn⟩ := Option.bind_eq_some_iff.mp h
  obtain ⟨biased, fraction, hfraction, hx, hparts⟩ := ofBitPattern_of_binary? hb
  obtain ⟨hratio, hsign⟩ := Binary.toInt?_spec hn
  by_cases hpos : n = 0
  · subst hpos
    have hmantissa : b.mantissa = 0 := by
      rw [Int.natAbs_zero, Nat.zero_mul] at hratio
      unfold Binary.ratio at hratio
      split at hratio
      · exact (Nat.mul_eq_zero.mp hratio.symm).resolve_right (Nat.two_pow_pos _).ne'
      · exact hratio.symm
    obtain ⟨rfl, rfl⟩ : biased = 0 ∧ fraction = 0 := by
      rcases hparts with ⟨hbiased, hfraction, -⟩ | ⟨-, hfraction, -⟩
      · exact ⟨hbiased, hfraction.symm.trans hmantissa⟩
      · have hzero := hfraction.symm.trans hmantissa
        exact absurd hzero (Nat.ne_of_gt (Nat.add_pos_right _ (by decide)))
    rw [hx]
    cases b.negative <;> decide
  · obtain ⟨hbiased, htop⟩ := parts_of_toInt? hfraction hparts hn hpos hlt
    have hsame : ofInt n = x := by
      rw [ofInt, nearestRatio_of_lt (Int.natAbs_ne_zero.mpr hpos) hlt, htop, hx, hsign hpos,
        hbiased, bits_of_parts]
    rw [hsame, beq_self_iff, isNaN_of_binary? hb]

end PromptTemplate.Number
