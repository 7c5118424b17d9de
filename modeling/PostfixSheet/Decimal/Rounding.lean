/-
Rounding a quotient of natural numbers to the nearest integer, a half going to
the even neighbour.  Both directions of number conversion round by this rule:
binary to decimal when a value is written, decimal to binary when it is read.
-/
namespace PostfixSheet.Decimal

/-- Ten to the power `n`: the number of parts in a unit with `n` decimal places. -/
def tenPow (n : Nat) : Nat := Nat.pow 10 n

theorem tenPow_pos (n : Nat) : 0 < tenPow n :=
  Nat.pow_pos (by decide)

/-- The integer nearest to `num / den`; a quotient half way between two goes to
the even one. -/
def divNearest (num den : Nat) : Nat :=
  if 2 * (num % den) < den ∨ (2 * (num % den) = den ∧ num / den % 2 = 0) then
    num / den
  else
    num / den + 1

end PostfixSheet.Decimal
