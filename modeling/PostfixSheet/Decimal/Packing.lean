/-
The bits of a floating-point number.

The logical model of `Float` takes bits apart into sign, exponent and significand
and packs them again.  Nothing is lost on the way except the payload of a NaN, so
that `ofMagnitude` gives the number whose exact value is the one asked for.
-/
import Mathlib
import PostfixSheet.Decimal.Binary64

namespace PostfixSheet.Decimal

open Float.Model Float.Model.UnpackedFloat

theorem toBitVec_ofBitVec (sign : BitVec 1) : (Sign.ofBitVec sign).toBitVec = sign := by
  revert sign
  decide

/-- The three components of a number are all its bits. -/
theorem packComponents_unpack (b : BitVec Format.binary64.numBits) :
    packComponents Format.binary64 (Sign.ofBitVec (unpackSign b)) (unpackExponent b)
      (unpackMantissa b) = b := by
  unfold packComponents
  rw [toBitVec_ofBitVec]
  apply BitVec.eq_of_getLsbD_eq
  intro i hi
  have hinside : i < 64 := hi
  simp only [unpackSign, unpackExponent, unpackMantissa, BitVec.getLsbD_append,
    BitVec.getLsbD_cast, BitVec.getLsbD_extractLsb]
  by_cases hlow : i < 52
  · simp [hlow]
  · by_cases hmiddle : i - 52 < 11
    · simp only [hlow, hmiddle, if_true, if_false]
      rw [show 52 + (i - 52) = i by omega]
      simp
    · have htop : i = 63 := by omega
      subst htop
      simp
      rfl

/-- A significand below the leading bit and the leading bit above it. -/
theorem toNat_leading_append (m : BitVec 52) :
    (1#1 ++ m).toNat = 2 ^ 52 + m.toNat := by
  rw [BitVec.toNat_append, ← Nat.shiftLeft_add_eq_or_of_lt m.isLt]
  simp [Nat.shiftLeft_eq]

theorem ofNat_leading_add (m : BitVec 52) : BitVec.ofNat 52 (2 ^ 52 + m.toNat) = m := by
  apply BitVec.eq_of_toNat_eq
  rw [BitVec.toNat_ofNat]
  have := m.isLt
  omega

/-- Packing what was unpacked gives the same bits, unless they are a NaN's. -/
theorem pack_unpack {b : BitVec Format.binary64.numBits}
    (hnumber : unpackExponent b = -1#_ → unpackMantissa b = 0#_) :
    UnpackedFloat.pack Format.binary64 (UnpackedFloat.unpack Format.binary64 b) = b := by
  have hwhole := packComponents_unpack b
  unfold UnpackedFloat.unpack
  by_cases hinfinite : unpackExponent b = -1#_
  · simp only [hinfinite, hnumber hinfinite, if_true, UnpackedFloat.pack, packedInfinity]
    rwa [hinfinite, hnumber hinfinite] at hwhole
  · by_cases hsmall : unpackExponent b = 0#_
    · rw [hsmall] at hwhole
      by_cases hzero : unpackMantissa b = 0#_
      · rw [hzero] at hwhole
        simp only [hsmall, hzero, if_true, dite_true, UnpackedFloat.pack, packedZero]
        simpa using hwhole
      · have hpositive : (unpackMantissa b).toNat ≠ 0 := by
          intro h
          exact hzero (BitVec.eq_of_toNat_eq (by simpa using h))
        have hshort : (unpackMantissa b).toNat.log2 < 52 :=
          (Nat.log2_lt hpositive).2 (unpackMantissa b).isLt
        have hmantissa : BitVec.ofNat 52 (unpackMantissa b).toNat = unpackMantissa b := by
          simp
        simp only [hsmall, hzero, if_true, dite_false, UnpackedFloat.pack]
        rw [if_neg (by decide)]
        dsimp only
        rw [if_neg (by decide), if_neg (by simp only [Format.mantissaBits]; omega), hmantissa]
        exact hwhole
    · have hbound : (unpackExponent b).toNat < 2 ^ 11 := (unpackExponent b).isLt
      have hnotTop : (unpackExponent b).toNat ≠ 2047 := by
        intro h
        exact hinfinite (BitVec.eq_of_toNat_eq (by simpa using h))
      have hlog : (1#1 ++ unpackMantissa b).toNat.log2 = 52 := by
        rw [toNat_leading_append]
        have : (unpackMantissa b).toNat < 2 ^ 52 := (unpackMantissa b).isLt
        exact (Nat.log2_eq_iff (by omega)).2 (by omega)
      have hexponent : ((unpackExponent b).toNat -
          ((Format.binary64.exponentBias : Int) + Format.binary64.mantissaBitsWithoutImplicit) +
          Format.binary64.exponentBias + Format.binary64.mantissaBitsWithoutImplicit).toNat =
            (unpackExponent b).toNat := by
        omega
      simp only [hinfinite, hsmall, if_false, UnpackedFloat.pack, hexponent, hlog]
      rw [if_neg (by show ¬2 ^ 11 ≤ _; omega), if_pos (by decide), toNat_leading_append,
        ofNat_leading_add]
      simpa using hwhole

/-- The bits that a number is made from are its bits, unless they are a NaN's. -/
theorem toBits_ofBits {bits : UInt64} (hnumber : bits.toNat % signUnit ≤ infinityBits) :
    (Float.ofBits bits).toBits = bits := by
  change UInt64.ofBitVec (UnpackedFloat.pack Format.binary64
    (UnpackedFloat.unpack Format.binary64 bits.toBitVec)) = bits
  rw [pack_unpack]
  intro htop
  have hexponent := congrArg BitVec.toNat htop
  apply BitVec.eq_of_toNat_eq
  simp only [unpackExponent, unpackMantissa, BitVec.toNat_cast, BitVec.extractLsb_toNat]
    at hexponent ⊢
  simp only [BitVec.reduceNeg, UInt64.toNat_toBitVec, Nat.shiftRight_eq_div_pow] at hexponent
  change bits.toNat >>> 0 % 2 ^ 52 = 0
  change bits.toNat / 2 ^ 52 % 2 ^ 11 = 2047 at hexponent
  rw [Nat.shiftRight_zero]
  unfold signUnit infinityBits at hnumber
  omega

theorem toBits_ofMagnitude (negative : Bool) {bits : Nat} (h : bits ≤ infinityBits) :
    (ofMagnitude negative bits).toBits.toNat = if negative then bits + signUnit else bits := by
  have hbound : (if negative then bits + signUnit else bits) < 2 ^ 64 := by
    unfold infinityBits at h
    unfold signUnit
    split <;> omega
  have hsame : (UInt64.ofNat (if negative then bits + signUnit else bits)).toNat =
      if negative then bits + signUnit else bits :=
    UInt64.toNat_ofNat_of_lt hbound
  rw [ofMagnitude, toBits_ofBits, hsame]
  rw [hsame]
  unfold infinityBits at h ⊢
  unfold signUnit
  split <;> omega

theorem exact_ofMagnitude (negative : Bool) {bits : Nat} (h : bits < infinityBits) :
    exact (ofMagnitude negative bits) = .finite negative (ticks bits) := by
  have hparts : (ofMagnitude negative bits).toBits.toNat % signUnit = bits ∧
      decide (signUnit ≤ (ofMagnitude negative bits).toBits.toNat) = negative := by
    rw [toBits_ofMagnitude negative (Nat.le_of_lt h)]
    unfold infinityBits at h
    unfold signUnit
    cases negative <;> simp <;> omega
  simp only [exact, hparts, h, if_true]

theorem exact_ofMagnitude_infinity (negative : Bool) :
    exact (ofMagnitude negative infinityBits) = .infinite negative := by
  cases negative <;> decide +kernel

theorem unpackExponent_eq_top_iff {b : BitVec Format.binary64.numBits} :
    unpackExponent b = -1#_ ↔ b.toNat / 2 ^ 52 % 2 ^ 11 = 2047 := by
  rw [← BitVec.toNat_inj]
  simp only [unpackExponent, BitVec.toNat_cast, BitVec.extractLsb_toNat,
    Nat.shiftRight_eq_div_pow]
  rfl

theorem unpackMantissa_eq_zero_iff {b : BitVec Format.binary64.numBits} :
    unpackMantissa b = 0#_ ↔ b.toNat % 2 ^ 52 = 0 := by
  rw [← BitVec.toNat_inj]
  simp only [unpackMantissa, BitVec.toNat_cast, BitVec.extractLsb_toNat, Nat.shiftRight_zero]
  rfl

/-- Only bits with the largest exponent unpack to something other than a finite number. -/
theorem isNaN_isInf_unpack (b : BitVec Format.binary64.numBits) :
    ((UnpackedFloat.unpack Format.binary64 b).isNaN = true ↔
      b.toNat / 2 ^ 52 % 2 ^ 11 = 2047 ∧ b.toNat % 2 ^ 52 ≠ 0) ∧
    ((UnpackedFloat.unpack Format.binary64 b).isInf = true ↔
      b.toNat / 2 ^ 52 % 2 ^ 11 = 2047 ∧ b.toNat % 2 ^ 52 = 0) := by
  rw [Ne, ← unpackExponent_eq_top_iff, ← unpackMantissa_eq_zero_iff]
  unfold UnpackedFloat.unpack
  by_cases htop : unpackExponent b = -1#_
  · by_cases hzero : unpackMantissa b = 0#_
    · simp only [htop, hzero, if_true, UnpackedFloat.isNaN, UnpackedFloat.isInf]
      decide
    · simp only [htop, hzero, if_true, if_false, UnpackedFloat.isNaN, UnpackedFloat.isInf]
      decide
  · simp only [htop, if_false, false_and]
    split
    · split <;> simp [UnpackedFloat.isNaN, UnpackedFloat.isInf]
    · simp [UnpackedFloat.isNaN, UnpackedFloat.isInf]

/-- The kinds of numbers are those that `Float` itself tells apart. -/
theorem isNaN_isInf_iff (x : Float) :
    (x.isNaN = true ↔ exact x = .nan) ∧
      (x.isInf = true ↔ ∃ negative, exact x = .infinite negative) := by
  obtain ⟨hnan, hinfinite⟩ := isNaN_isInf_unpack x.toBits.toBitVec
  change x.isNaN = true ↔ x.toBits.toNat / 2 ^ 52 % 2 ^ 11 = 2047 ∧
    x.toBits.toNat % 2 ^ 52 ≠ 0 at hnan
  change x.isInf = true ↔ x.toBits.toNat / 2 ^ 52 % 2 ^ 11 = 2047 ∧
    x.toBits.toNat % 2 ^ 52 = 0 at hinfinite
  rw [hnan, hinfinite, exact]
  generalize x.toBits.toNat = bits
  have hsigns : signUnit = 2 ^ 63 := rfl
  have hlimit : infinityBits = 2047 * 2 ^ 52 := rfl
  rw [hsigns, hlimit]
  split
  · simp only [reduceCtorEq, exists_const, iff_false]
    omega
  · split
    · simp only [ne_eq, reduceCtorEq, iff_false, not_and, Decidable.not_not,
        Exact.infinite.injEq, exists_eq', iff_true]
      omega
    · simp only [ne_eq, iff_true, reduceCtorEq, exists_const, iff_false, not_and]
      omega

end PostfixSheet.Decimal
