/-
The nearest number.

`divNearest` finds the whole number nearest to a quotient, and of two that are equally near
the even one.  The ticks of a magnitude are a significand shifted to the left, so that they
grow with its bits, and `nearestBits` finds the magnitude nearest to a quotient among all
that there would be if exponents had no bound.
-/
import Mathlib.Data.Nat.Dist
import Mathlib.Order.Monotone.Basic
import Mathlib.Tactic.Ring
import PostfixSheet.Decimal.Binary64

namespace PostfixSheet.Decimal

variable {num den q drop significand bits : Nat}

/-- The rounded quotient is at most half a unit away, and even if it is just that far. -/
theorem dist_divNearest (num : Nat) (hden : 0 < den) :
    2 * Nat.dist num (divNearest num den * den) ≤ den ∧
      (2 * Nat.dist num (divNearest num den * den) = den → divNearest num den % 2 = 0) := by
  have hsplit : num / den * den + num % den = num := Nat.div_add_mod' num den
  have hrest : num % den < den := Nat.mod_lt num hden
  unfold divNearest
  split
  · rw [Nat.dist_eq_sub_of_le_right (by omega)]
    omega
  · rw [Nat.add_mul, Nat.one_mul, Nat.dist_eq_sub_of_le (by omega)]
    omega

/-- How far two multiples are from each other, seen from a third number. -/
theorem dist_mul_le (num q r den : Nat) :
    Nat.dist q r * den ≤ Nat.dist num (q * den) + Nat.dist num (r * den) := by
  rw [← Nat.dist_mul_right, Nat.dist_comm num (q * den)]
  exact Nat.dist.triangle_inequality (q * den) num (r * den)

theorem divNearest_eq_iff (hden : 0 < den) :
    divNearest num den = q ↔ 2 * Nat.dist num (q * den) ≤ den ∧
      (2 * Nat.dist num (q * den) = den → q % 2 = 0) := by
  constructor
  · rintro rfl
    exact dist_divNearest num hden
  · rintro ⟨hnear, heven⟩
    obtain ⟨hnear', heven'⟩ := dist_divNearest num hden
    have hunits := dist_mul_le num q (divNearest num den) den
    have hnext : Nat.dist q (divNearest num den) ≤ 1 := by
      apply Nat.le_of_mul_le_mul_right _ hden
      omega
    by_cases hsame : Nat.dist q (divNearest num den) = 0
    · exact (Nat.eq_of_dist_eq_zero hsame).symm
    · -- two neighbours that are half a unit away are not both even
      have hone : Nat.dist q (divNearest num den) = 1 := by omega
      rw [hone, Nat.one_mul] at hunits
      have hq : q % 2 = 0 := heven (by omega)
      have hr : divNearest num den % 2 = 0 := heven' (by omega)
      unfold Nat.dist at hone
      omega

theorem dist_divNearest_le (num : Nat) (hden : 0 < den) (q : Nat) :
    Nat.dist num (divNearest num den * den) ≤ Nat.dist num (q * den) := by
  obtain ⟨hnear, -⟩ := dist_divNearest num hden
  have hunits := dist_mul_le num q (divNearest num den) den
  by_cases hsame : Nat.dist q (divNearest num den) = 0
  · rw [Nat.eq_of_dist_eq_zero hsame]
  · have hfar : 1 * den ≤ Nat.dist q (divNearest num den) * den :=
      Nat.mul_le_mul_right den (Nat.one_le_iff_ne_zero.2 hsame)
    omega

theorem divNearest_le (hden : 0 < den) (h : num ≤ q * den) : divNearest num den ≤ q := by
  have hsplit : num / den * den + num % den = num := Nat.div_add_mod' num den
  have hfloor : num / den ≤ q := Nat.div_le_of_le_mul (Nat.mul_comm q den ▸ h)
  unfold divNearest
  split
  · exact hfloor
  · rename_i hup
    rcases Nat.lt_or_eq_of_le hfloor with hlt | heq
    · exact hlt
    · rw [heq] at hsplit
      omega

theorem le_divNearest (hden : 0 < den) (h : q * den ≤ num) : q ≤ divNearest num den := by
  have hfloor : q ≤ num / den := (Nat.le_div_iff_mul_le hden).2 h
  unfold divNearest
  split <;> omega

/-- The ticks of a significand with so many binary zeros after it.  Only a significand
without zeros may lack the leading bit, and one that has been rounded up to the next power
of two counts as well. -/
theorem ticks_of_significand (hsignificand : significand ≤ 2 * exponentUnit)
    (hleading : drop = 0 ∨ exponentUnit ≤ significand) :
    ticks (drop * exponentUnit + significand) = significand * 2 ^ drop := by
  have hunit : 0 < exponentUnit := by decide
  rcases Nat.lt_or_ge significand exponentUnit with hsmall | hlarge
  · have hdrop : drop = 0 := hleading.resolve_right (by omega)
    subst hdrop
    simp [ticks, hsmall]
  · have hnormal : ¬drop * exponentUnit + significand < exponentUnit := by omega
    rw [ticks, if_neg hnormal, Nat.shiftLeft_eq]
    rcases Nat.lt_or_eq_of_le hsignificand with hbelow | htop
    · obtain ⟨rest, rfl⟩ := Nat.exists_eq_add_of_le hlarge
      have hbits : drop * exponentUnit + (exponentUnit + rest) =
          rest + (drop + 1) * exponentUnit := by ring
      rw [hbits, Nat.add_mul_mod_self_right, Nat.add_mul_div_right _ _ hunit,
        Nat.mod_eq_of_lt (by omega), Nat.div_eq_of_lt (by omega), Nat.zero_add,
        Nat.add_sub_cancel, Nat.add_comm rest]
    · have hbits : drop * exponentUnit + significand = (drop + 2) * exponentUnit := by
        rw [htop]
        ring
      rw [hbits, Nat.mul_mod_left, Nat.mul_div_cancel _ hunit, htop, Nat.zero_add,
        Nat.add_sub_assoc (by decide)]
      ring

/-- All bits are those of a significand with zeros after it. -/
theorem exists_significand (bits : Nat) :
    ∃ drop significand, bits = drop * exponentUnit + significand ∧
      significand < 2 * exponentUnit ∧ (drop = 0 ∨ exponentUnit ≤ significand) := by
  have hunit : 0 < exponentUnit := by decide
  have hsplit : bits / exponentUnit * exponentUnit + bits % exponentUnit = bits :=
    Nat.div_add_mod' bits exponentUnit
  have hrest : bits % exponentUnit < exponentUnit := Nat.mod_lt bits hunit
  cases hexponent : bits / exponentUnit with
  | zero =>
      rw [hexponent] at hsplit
      exact ⟨0, bits % exponentUnit, by omega, by omega, Or.inl rfl⟩
  | succ drop =>
      rw [hexponent, Nat.add_mul, Nat.one_mul] at hsplit
      exact ⟨drop, exponentUnit + bits % exponentUnit, by omega, by omega, Or.inr (by omega)⟩

theorem ticks_strictMono : StrictMono ticks := by
  refine strictMono_nat_of_lt_succ fun bits => ?_
  obtain ⟨drop, significand, rfl, hbelow, hleading⟩ := exists_significand bits
  rw [Nat.add_assoc, ticks_of_significand (by omega) hleading,
    ticks_of_significand (by omega) (by omega)]
  exact Nat.mul_lt_mul_of_pos_right (Nat.lt_succ_self significand) (Nat.two_pow_pos drop)

/-- Where magnitudes lie that are not whole multiples of a power of two: below those that
have the leading bit before so many zeros. -/
theorem dvd_ticks_or_lt (bits drop : Nat) :
    2 ^ drop ∣ ticks bits ∨ ticks bits < exponentUnit * 2 ^ drop := by
  obtain ⟨zeros, significand, rfl, hbelow, hleading⟩ := exists_significand bits
  rw [ticks_of_significand (by omega) hleading]
  rcases Nat.lt_or_ge zeros drop with hless | hmore
  · right
    calc significand * 2 ^ zeros
        < 2 * exponentUnit * 2 ^ zeros := Nat.mul_lt_mul_of_pos_right hbelow (Nat.two_pow_pos zeros)
      _ = exponentUnit * 2 ^ (zeros + 1) := by ring
      _ ≤ exponentUnit * 2 ^ drop :=
          Nat.mul_le_mul_left _ (Nat.pow_le_pow_right Nat.two_pos hless)
  · exact Or.inl (Dvd.dvd.mul_left (Nat.pow_dvd_pow 2 hmore) significand)

/-- The bits of the nearest magnitude, if there were no largest exponent. -/
def unboundedBits (num den : Nat) : Nat :=
  let drop := (num * tickScale / den).log2 - 52
  drop * exponentUnit + divNearest (num * tickScale) (den <<< drop)

theorem nearestBits_eq_min (num den : Nat) :
    nearestBits num den = min (unboundedBits num den) infinityBits := rfl

theorem exponentUnit_eq : exponentUnit = 2 ^ 52 := rfl

/-- What is dropped leaves 53 digits of a quotient, or as many as there are. -/
theorem drop_bounds (count : Nat) (hden : 0 < den) :
    count < 2 * exponentUnit * (den * 2 ^ ((count / den).log2 - 52)) ∧
      ((count / den).log2 - 52 = 0 ∨
        exponentUnit * (den * 2 ^ ((count / den).log2 - 52)) ≤ count) := by
  rw [exponentUnit_eq]
  constructor
  · have hpower : count / den + 1 ≤ 2 ^ (53 + ((count / den).log2 - 52)) :=
      Nat.le_trans Nat.lt_log2_self (Nat.pow_le_pow_right Nat.two_pos (by omega))
    calc count
        < den * (count / den + 1) := Nat.lt_mul_div_succ count hden
      _ ≤ den * 2 ^ (53 + ((count / den).log2 - 52)) := Nat.mul_le_mul_left den hpower
      _ = 2 * 2 ^ 52 * (den * 2 ^ ((count / den).log2 - 52)) := by ring
  · by_cases hfew : (count / den).log2 - 52 = 0
    · exact Or.inl hfew
    · right
      have hquotient : count / den ≠ 0 := by
        intro hzero
        rw [hzero, Nat.log2_zero] at hfew
        exact hfew rfl
      have hdigits : 52 + ((count / den).log2 - 52) = (count / den).log2 := by omega
      calc 2 ^ 52 * (den * 2 ^ ((count / den).log2 - 52))
          = den * 2 ^ (52 + ((count / den).log2 - 52)) := by ring
        _ = den * 2 ^ (count / den).log2 := by rw [hdigits]
        _ ≤ den * (count / den) := Nat.mul_le_mul_left den (Nat.log2_self_le hquotient)
        _ ≤ count := Nat.mul_div_le count den

/-- No magnitude is nearer to a quotient. -/
theorem dist_unboundedBits_le (num : Nat) (hden : 0 < den) (bits : Nat) :
    Nat.dist (num * tickScale) (ticks (unboundedBits num den) * den) ≤
      Nat.dist (num * tickScale) (ticks bits * den) := by
  obtain ⟨habove, hbelow⟩ := drop_bounds (num * tickScale) hden
  simp only [unboundedBits, Nat.shiftLeft_eq]
  generalize num * tickScale = count at *
  generalize (count / den).log2 - 52 = drop at *
  have hunit : 0 < den * 2 ^ drop := Nat.mul_pos hden (Nat.two_pow_pos drop)
  have hregroup : ∀ q, q * 2 ^ drop * den = q * (den * 2 ^ drop) := fun q => by ring
  rw [ticks_of_significand (divNearest_le hunit (Nat.le_of_lt habove))
    (hbelow.imp_right (le_divNearest hunit)), hregroup]
  rcases dvd_ticks_or_lt bits drop with ⟨q, hq⟩ | hless
  · rw [hq, Nat.mul_comm (2 ^ drop) q, hregroup]
    exact dist_divNearest_le count hunit q
  · rcases hbelow with rfl | hleading
    · simpa only [Nat.pow_zero, Nat.mul_one] using dist_divNearest_le count hunit (ticks bits)
    · -- a finer magnitude is smaller than the power of two below the quotient
      have hfiner : ticks bits * den ≤ exponentUnit * (den * 2 ^ drop) := by
        rw [← hregroup]
        exact Nat.mul_le_mul_right den (Nat.le_of_lt hless)
      calc Nat.dist count (divNearest count (den * 2 ^ drop) * (den * 2 ^ drop))
          ≤ Nat.dist count (exponentUnit * (den * 2 ^ drop)) := dist_divNearest_le count hunit _
        _ ≤ Nat.dist count (ticks bits * den) := by
            rw [Nat.dist_eq_sub_of_le_right hleading,
              Nat.dist_eq_sub_of_le_right (Nat.le_trans hfiner hleading)]
            exact Nat.sub_le_sub_left hfiner count

end PostfixSheet.Decimal
