/-
Printed numbers, read and printed again.

A decimal with some places lies at most half a unit of its last place away from the number
that it was rounded from.  The number that it is read as lies at least as near, so that it
is rounded to the same decimal.
-/
import PostfixSheet.Decimal.Packing
import PostfixSheet.Proofs.FixedText
import PostfixSheet.Proofs.Nearest

namespace PostfixSheet

namespace Decimal

variable {num den places bits : Nat} {x : Float}

theorem two_pow_mul_tickScale (n : Nat) : 2 ^ n * tickScale = 2 ^ (n + 1074) := by
  rw [tickScale, Nat.one_shiftLeft, Nat.pow_add]

theorem tickScale_pos : 0 < tickScale := by decide

theorem nearestBits_eq_zero (h : 2 * (num * tickScale) < den) : nearestBits num den = 0 := by
  have hden : 0 < den := Nat.zero_lt_of_lt h
  have hzero : num * tickScale / den = 0 := Nat.div_eq_of_lt (by omega)
  have hround : divNearest (num * tickScale) den = 0 := by
    rw [divNearest_eq_iff hden, Nat.zero_mul, Nat.dist_zero_right]
    omega
  rw [nearestBits_eq_min, unboundedBits]
  simp [hzero, hround]

/-- A decimal with some places is read as the nearest number.  Where the power of ten is not
looked at, the decimal is too small for a tick. -/
theorem magnitude_neg (coefficient places : Nat) :
    Literal.magnitude coefficient (-(places : Int)) =
      nearestBits coefficient (tenPow places) := by
  cases places with
  | zero =>
      change (if coefficient = 0 then 0
        else if 0 < 310 then nearestBits (coefficient * tenPow 0) 1 else infinityBits) =
          nearestBits coefficient (tenPow 0)
      by_cases hzero : coefficient = 0
      · have hless : 2 * (coefficient * tickScale) < tenPow 0 := by
          rw [hzero, Nat.zero_mul]
          exact tenPow_pos 0
        rw [if_pos hzero, nearestBits_eq_zero hless]
      · have hone : tenPow 0 = 1 := rfl
        rw [if_neg hzero, if_pos (by decide), hone, Nat.mul_one]
  | succ k =>
      change (if coefficient.log2 + 1080 < 3 * (k + 1) then 0
        else nearestBits coefficient (tenPow (k + 1))) = nearestBits coefficient (tenPow (k + 1))
      split
      · rename_i hsmall
        have height : 2 ^ (3 * (k + 1)) ≤ tenPow (k + 1) := by
          rw [Nat.pow_mul]
          exact Nat.pow_le_pow_left (by decide) (k + 1)
        have hcount : 2 * (coefficient * tickScale) < tenPow (k + 1) := by
          calc 2 * (coefficient * tickScale)
              < 2 * (2 ^ (coefficient.log2 + 1) * tickScale) := by
                have hlog : coefficient < 2 ^ (coefficient.log2 + 1) := Nat.lt_log2_self
                have hless := Nat.mul_lt_mul_of_pos_right hlog tickScale_pos
                omega
            _ = 2 ^ (coefficient.log2 + 1076) := by
                rw [two_pow_mul_tickScale, ← Nat.pow_succ']
            _ ≤ 2 ^ (3 * (k + 1)) := Nat.pow_le_pow_right Nat.two_pos (by omega)
            _ ≤ tenPow (k + 1) := height
        exact (nearestBits_eq_zero hcount).symm
      · rfl

/-- The decimal that a magnitude is rounded to. -/
def coefficientOf (places bits : Nat) : Nat :=
  divNearest (ticks bits * tenPow places) tickScale

/-- The decimal is at most half a unit away, and even if it is just that far. -/
theorem dist_coefficientOf (places bits : Nat) :
    2 * Nat.dist (coefficientOf places bits * tickScale) (ticks bits * tenPow places) ≤ tickScale ∧
      (2 * Nat.dist (coefficientOf places bits * tickScale) (ticks bits * tenPow places) =
        tickScale → coefficientOf places bits % 2 = 0) := by
  rw [Nat.dist_comm]
  exact dist_divNearest (ticks bits * tenPow places) tickScale_pos

/-- A magnitude that is at least as near to the decimal is rounded to it too. -/
theorem coefficientOf_eq_of_dist_le {again : Nat}
    (h : Nat.dist (coefficientOf places bits * tickScale) (ticks again * tenPow places) ≤
      Nat.dist (coefficientOf places bits * tickScale) (ticks bits * tenPow places)) :
    coefficientOf places again = coefficientOf places bits := by
  obtain ⟨hnear, heven⟩ := dist_coefficientOf places bits
  refine (divNearest_eq_iff tickScale_pos).2 ?_
  rw [Nat.dist_comm]
  -- as far away as half a unit it is only if the first magnitude was, and that was a tie
  exact ⟨by omega, fun htie => heven (by omega)⟩

/-- The largest finite magnitude is more than a unit below what would come next. -/
theorem ticks_last_add_lt : ticks (infinityBits - 1) + tickScale < ticks infinityBits := by
  decide +kernel

/-- No decimal that a finite magnitude is rounded to is read as an infinite one. -/
theorem unboundedBits_coefficientOf_lt (places : Nat) (h : bits < infinityBits) :
    unboundedBits (coefficientOf places bits) (tenPow places) < infinityBits := by
  by_contra hlarge
  have hread := dist_unboundedBits_le (coefficientOf places bits) (tenPow_pos places) bits
  obtain ⟨hnear, -⟩ := dist_coefficientOf places bits
  generalize unboundedBits (coefficientOf places bits) (tenPow places) = again at *
  have hlast : ticks bits ≤ ticks (infinityBits - 1) :=
    ticks_strictMono.monotone (Nat.le_sub_one_of_lt h)
  have hfirst : ticks infinityBits ≤ ticks again :=
    ticks_strictMono.monotone (Nat.le_of_not_lt hlarge)
  have hgap := ticks_last_add_lt
  have hunits := dist_mul_le (coefficientOf places bits * tickScale) (ticks bits) (ticks again)
    (tenPow places)
  have hfar : Nat.dist (ticks bits) (ticks again) ≤
      Nat.dist (ticks bits) (ticks again) * tenPow places :=
    Nat.le_mul_of_pos_right _ (tenPow_pos places)
  rw [Nat.dist_eq_sub_of_le (by omega)] at hfar hunits
  omega

/-- Numbers of one kind and sign that are rounded to the same decimal. -/
inductive Exact.SamePrint (places : Nat) : Exact → Exact → Prop
  | nan : SamePrint places .nan .nan
  | infinite (negative : Bool) : SamePrint places (.infinite negative) (.infinite negative)
  | finite (negative : Bool) {count again : Nat} :
      divNearest (again * tenPow places) tickScale =
        divNearest (count * tenPow places) tickScale →
      SamePrint places (.finite negative count) (.finite negative again)

def Exact.sign? : Exact → Option Bool
  | .nan => none
  | .infinite negative => some negative
  | .finite negative _ => some negative

theorem sign?_exact (h : x.isNaN = false) :
    (exact x).sign? = some (decide (signUnit ≤ x.toBits.toNat)) := by
  have hnumber : exact x ≠ .nan := by
    intro hnan
    rw [(isNaN_isInf_iff x).1.2 hnan] at h
    cases h
  unfold exact at hnumber ⊢
  dsimp only at hnumber ⊢
  split
  · rfl
  · split
    · rfl
    · rename_i hlarge hother
      rw [if_neg hlarge, if_neg hother] at hnumber
      exact absurd rfl hnumber

theorem exists_ticks {count : Nat} (h : exact x = .finite negative count) :
    ∃ bits, bits < infinityBits ∧ count = ticks bits := by
  unfold exact at h
  dsimp only at h
  split at h
  · rename_i hfinite
    cases h
    exact ⟨_, hfinite, rfl⟩
  · split at h <;> cases h

/-- What is written for a number is read as one with the same print. -/
theorem samePrint_value_written (places : Nat) (x : Float) :
    (exact x).SamePrint places (exact (Literal.written places x).value) := by
  unfold Literal.written
  cases hexact : exact x with
  | nan =>
      have hnan : exact Literal.nan.value = .nan := by decide +kernel
      change Exact.SamePrint places .nan (exact Literal.nan.value)
      rw [hnan]
      exact .nan
  | infinite negative =>
      change Exact.SamePrint places (.infinite negative)
        (exact (ofMagnitude negative infinityBits))
      rw [exact_ofMagnitude_infinity]
      exact .infinite negative
  | finite negative count =>
      obtain ⟨bits, hfinite, rfl⟩ := exists_ticks hexact
      have hbounded := unboundedBits_coefficientOf_lt places hfinite
      have hread : Literal.magnitude (coefficientOf places bits) (-(places : Int)) =
          unboundedBits (coefficientOf places bits) (tenPow places) := by
        rw [magnitude_neg, nearestBits_eq_min, Nat.min_eq_left (Nat.le_of_lt hbounded)]
      change Exact.SamePrint places (.finite negative (ticks bits)) (exact (ofMagnitude negative
        (Literal.magnitude (coefficientOf places bits) (-(places : Int)))))
      rw [hread, exact_ofMagnitude negative hbounded]
      exact .finite negative
        (coefficientOf_eq_of_dist_le (dist_unboundedBits_le _ (tenPow_pos places) bits))

variable {again : Float}

theorem fixed?_of_samePrint (h : (exact x).SamePrint places (exact again)) :
    fixed? places again = fixed? places x := by
  unfold fixed?
  generalize exact x = first at *
  generalize exact again = second at *
  cases h with
  | nan => rfl
  | infinite negative => rfl
  | finite negative hdecimal => simp only [hdecimal]

theorem Exact.SamePrint.kind {first second : Exact} (h : first.SamePrint places second) :
    (second = .nan ↔ first = .nan) ∧
      ((∃ negative, second = .infinite negative) ↔ ∃ negative, first = .infinite negative) ∧
      second.sign? = first.sign? := by
  cases h with
  | nan => exact ⟨Iff.rfl, Iff.rfl, rfl⟩
  | infinite negative => exact ⟨Iff.rfl, Iff.rfl, rfl⟩
  | finite negative _ => simp [Exact.sign?]

/-- Numbers with the same print have the same sign bit, unless they are NaN. -/
theorem kind_of_samePrint (h : (exact x).SamePrint places (exact again)) :
    again.isNaN = x.isNaN ∧ again.isInf = x.isInf ∧
      (x.isNaN = false → (signUnit ≤ again.toBits.toNat ↔ signUnit ≤ x.toBits.toNat)) := by
  obtain ⟨hnan, hinfinite, hsign⟩ := h.kind
  have hkind := isNaN_isInf_iff x
  have hkind' := isNaN_isInf_iff again
  have hsame : again.isNaN = x.isNaN := by
    rw [Bool.eq_iff_iff, hkind.1, hkind'.1, hnan]
  refine ⟨hsame, ?_, fun hnumber => ?_⟩
  · rw [Bool.eq_iff_iff, hkind.2, hkind'.2, hinfinite]
  · rw [sign?_exact hnumber, sign?_exact (hsame.trans hnumber)] at hsign
    exact decide_eq_decide.1 (Option.some.inj hsign)

end Decimal

/-- Every number has a text with some decimal places, and this text is a number token again.
The number in it has the same text.  It is NaN, or infinite, only if the first number is, and
it has the same sign, also if it is zero. -/
theorem Token.exists_ofText_fixed? {places : Nat} (h : places ≤ Decimal.maxPlaces) (x : Float) :
    ∃ text again, Decimal.fixed? places x = some text ∧ Token.ofText text = .number again ∧
      Decimal.fixed? places again = some text ∧ again.isNaN = x.isNaN ∧ again.isInf = x.isInf ∧
      (x.isNaN = false →
        (Decimal.signUnit ≤ again.toBits.toNat ↔ Decimal.signUnit ≤ x.toBits.toNat)) := by
  obtain ⟨text, htext⟩ := Decimal.exists_fixed?_eq_some h x
  have hprint := Decimal.samePrint_value_written places x
  exact ⟨text, (Decimal.Literal.written places x).value, htext,
    Token.ofText_of_literal (Decimal.ofText?_fixed? htext),
    (Decimal.fixed?_of_samePrint hprint).trans htext, Decimal.kind_of_samePrint hprint⟩

namespace Token.ReprintingWitness

/-- The negative number that is nearest to zero. -/
def speck : Float := Decimal.ofMagnitude true 1

/-- It is written as a zero with a minus sign, and read again as negative zero. -/
theorem exists_ofText_fixed?_speck :
    2 ≤ Decimal.maxPlaces ∧ ∃ again, Token.ofText "-0.00" = .number again ∧
      Decimal.fixed? 2 again = some "-0.00" ∧ again.isNaN = false ∧
      Decimal.signUnit ≤ again.toBits.toNat := by
  obtain ⟨text, again, htext, htoken, hagain, hnan, -, hsign⟩ :=
    Token.exists_ofText_fixed? (show 2 ≤ Decimal.maxPlaces by decide) speck
  have hwritten : Decimal.fixed? 2 speck = some "-0.00" := by decide +kernel
  obtain rfl : "-0.00" = text := Option.some.inj (hwritten.symm.trans htext)
  have hnumber : speck.isNaN = false := by decide +kernel
  have hnegative : Decimal.signUnit ≤ speck.toBits.toNat := by decide +kernel
  exact ⟨by decide, again, htoken, hagain, hnan.trans hnumber, (hsign hnumber).2 hnegative⟩

end Token.ReprintingWitness

end PostfixSheet
