import Mathlib
import Boli.Number.Double

/-!
# Doubles by sign and ordinal

A double is known by its sign and its ordinal (`Double.ofOrdinal_magnitude`), and every ordinal up
to that of infinity is the ordinal of a double with either sign (`Double.magnitude_ofOrdinal`).
The ordinal tells whether a double is finite, infinite or no number at all, and equality is that of
signs and ordinals, but for the two zeros.
-/

namespace Boli.Double

open Float.Model.UnpackedFloat

/-! ## Bit patterns -/

/-- The exponent is the number of whole binades below the pattern. -/
theorem toNat_unpackExponent (b : UInt64) :
    (@unpackExponent .binary64 b.toBitVec).toNat = b.toNat % signBit / binade := by
  rw [unpackExponent_def]
  simp only [BitVec.extractLsb'_toNat, UInt64.toNat_toBitVec, signBit, binade,
    Nat.shiftRight_eq_div_pow]
  omega

/-- The mantissa is the place within the binade. -/
theorem toNat_unpackMantissa (b : UInt64) :
    (@unpackMantissa .binary64 b.toBitVec).toNat = b.toNat % binade := by
  rw [unpackMantissa_def]
  simp only [BitVec.extractLsb'_toNat, UInt64.toNat_toBitVec, binade, Nat.shiftRight_eq_div_pow]
  omega

/-- The largest exponent is that of infinity and of no number. -/
theorem unpackExponent_eq_iff (b : UInt64) :
    @unpackExponent .binary64 b.toBitVec = -1#_ ↔ infinite ≤ b.toNat % signBit := by
  rw [← BitVec.toNat_inj, toNat_unpackExponent]
  simp [signBit, binade, infinite]
  omega

theorem unpackMantissa_eq_iff (b : UInt64) :
    @unpackMantissa .binary64 b.toBitVec = 0#_ ↔ b.toNat % binade = 0 := by
  rw [← BitVec.toNat_inj, toNat_unpackMantissa]
  simp

/-- The bit patterns behind that of infinity stand for no number. -/
theorem isNaNBits_iff (b : UInt64) :
    @isNaNBits .binary64 b.toBitVec ↔ infinite < b.toNat % signBit := by
  rw [isNaNBits, decide_eq_true_eq, Ne,
    and_congr (unpackExponent_eq_iff b) (not_congr (unpackMantissa_eq_iff b))]
  unfold infinite signBit binade
  omega

/-- A pattern that stands for a number is that of its double. -/
theorem toBits_ofBits {b : UInt64} (h : b.toNat % signBit ≤ infinite) :
    (Float.ofBits b).toBits = b := by
  have hpack : (Float.ofBits b).toBits.toBitVec =
      (unpack .binary64 b.toBitVec).pack .binary64 := rfl
  rw [← UInt64.toBitVec_inj, hpack, pack_unpack, if_neg]
  rw [isNaNBits_iff]
  exact Nat.not_lt.2 h

theorem unpackSign_eq_iff (b : UInt64) :
    @unpackSign .binary64 b.toBitVec = 0#1 ↔ b.toNat < signBit := by
  have hlt : b.toNat < 2 * signBit := b.toNat_lt
  rw [← BitVec.toNat_inj, unpackSign_def]
  simp only [BitVec.extractLsb'_toNat, UInt64.toNat_toBitVec, Nat.shiftRight_eq_div_pow]
  simp [signBit, binade] at *
  omega

/-! ## Sign and ordinal -/

/-- A double is known by its sign and its ordinal. -/
theorem ofOrdinal_magnitude (x : Float) : ofOrdinal (isNegative x) (magnitude x) = x := by
  have hlt : x.toBits.toNat < 2 * signBit := x.toBits.toNat_lt
  have hbits : (if isNegative x then signBit + magnitude x else magnitude x) =
      x.toBits.toNat := by
    simp only [isNegative, magnitude, decide_eq_true_eq]
    unfold signBit binade at *
    split <;> omega
  rw [ofOrdinal, hbits, UInt64.ofNat_toNat, Float.ofBits_toBits]

/-- The pattern of a negative double has the sign bit in front of the ordinal. -/
theorem toNat_toBits_ofOrdinal (negative : Bool) {n : Nat} (h : n ≤ infinite) :
    (ofOrdinal negative n).toBits.toNat = if negative then signBit + n else n := by
  have hlt : (if negative then signBit + n else n) < 2 ^ 64 := by
    unfold infinite signBit binade at *
    split <;> omega
  have hnat := UInt64.toNat_ofNat_of_lt' hlt
  rw [ofOrdinal, toBits_ofBits, hnat]
  rw [hnat]
  unfold infinite signBit binade at *
  split <;> omega

/-- The double with an ordinal has that ordinal, whatever its sign. -/
theorem magnitude_ofOrdinal (negative : Bool) {n : Nat} (h : n ≤ infinite) :
    magnitude (ofOrdinal negative n) = n := by
  rw [magnitude, toNat_toBits_ofOrdinal negative h]
  unfold infinite signBit binade at *
  split <;> omega

/-- No number is beyond infinity. -/
theorem isNaN_iff (x : Float) : x.isNaN ↔ infinite < magnitude x := by
  constructor
  · intro h
    rw [Float.isNaN_eq_decide_eq_nan, decide_eq_true_eq] at h
    rw [h]
    decide
  · intro h
    have hbits := (isNaNBits_iff x.toBits).2 h
    simp only [isNaNBits, decide_eq_true_eq] at hbits
    exact (isNaN_unpack_iff_of_valid x.toModel.valid).2
      (x.toModel.valid.eq_packedNaN hbits.1 hbits.2)

theorem isInf_unpack_iff (b : UInt64) : (unpack .binary64 b.toBitVec).isInf ↔
    infinite ≤ b.toNat % signBit ∧ b.toNat % binade = 0 := by
  rw [← unpackExponent_eq_iff, ← unpackMantissa_eq_iff]
  fun_cases unpack .binary64 b.toBitVec with
  | case1 _ _ _ _ hexponent hmantissa => exact iff_of_true rfl ⟨hexponent, hmantissa⟩
  | case2 _ _ hexponent hmantissa => exact iff_of_false (by decide) fun h => hmantissa h.2
  | case3 _ _ _ _ hexponent _ _ => exact iff_of_false (by simp [isInf]) fun h => hexponent h.1
  | case4 _ _ _ _ _ hexponent _ _ => exact iff_of_false (by simp [isInf]) fun h => hexponent h.1
  | case5 _ _ _ _ _ hexponent _ => exact iff_of_false (by simp [isInf]) fun h => hexponent h.1

/-- The infinite doubles have the ordinal of infinity. -/
theorem isInf_iff (x : Float) : x.isInf ↔ magnitude x = infinite := by
  have hunpack : x.isInf = (unpack .binary64 x.toBits.toBitVec).isInf := rfl
  rw [hunpack, isInf_unpack_iff, magnitude]
  have hlt : x.toBits.toNat < 2 * signBit := x.toBits.toNat_lt
  unfold infinite signBit binade at *
  omega

/-! ## The order -/

theorem positive_of_zero_le_infinity {sign : Sign}
    (h : (zero .positive).le (Float.Model.UnpackedFloat.infinity sign)) : sign = .positive := by
  cases sign with
  | negative => cases h
  | positive => rfl

theorem positive_of_zero_le_finite {sign : Sign} {mantissa : Nat} {exponent : Int}
    {hpos : 0 < mantissa} (h : (zero .positive).le (finite sign mantissa exponent hpos)) :
    sign = .positive := by
  cases sign with
  | negative => cases h
  | positive => rfl

/-- A double with a sign that is not below zero is a zero. -/
theorem magnitude_eq_zero_of_nonneg {x : Float} (h : 0 ≤ x) (hx : isNegative x) :
    magnitude x = 0 := by
  have hle : (Float.ofBits 0).toModel.unpack.le (unpack .binary64 x.toBits.toBitVec) = true := by
    have hzero : (0 : Float) = .ofBits 0 := by decide
    rw [hzero] at h
    exact of_decide_eq_true h
  have hunpack : (Float.ofBits 0).toModel.unpack = .zero .positive := rfl
  have hsign : Sign.ofBitVec (@unpackSign .binary64 x.toBits.toBitVec) = .negative := by
    rw [Sign.ofBitVec, if_neg]
    rw [unpackSign_eq_iff]
    exact Nat.not_lt.2 (by simpa [isNegative] using hx)
  rw [hunpack] at hle
  revert hle
  fun_cases unpack .binary64 x.toBits.toBitVec with
  | case1 => exact fun hle => by cases hsign.symm.trans (positive_of_zero_le_infinity hle)
  | case2 => exact fun hle => by cases hle
  | case3 _ _ _ _ _ hexponent hmantissa =>
    intro _
    have hexponent' := congrArg BitVec.toNat hexponent
    have hmantissa' := congrArg BitVec.toNat hmantissa
    rw [toNat_unpackExponent] at hexponent'
    rw [toNat_unpackMantissa] at hmantissa'
    simp [magnitude, signBit, binade] at *
    omega
  | case4 => exact fun hle => by cases hsign.symm.trans (positive_of_zero_le_finite hle)
  | case5 => exact fun hle => by cases hsign.symm.trans (positive_of_zero_le_finite hle)

end Boli.Double
