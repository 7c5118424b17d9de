/-
The exact values of 64-bit floating-point numbers.

The magnitude of a finite number is a whole number of ticks of `2 ^ -1074`, the
smallest positive value.  `ticks` gives that number for the bits of a magnitude,
and `nearestBits` goes the other way, from a quotient of natural numbers to the
bits of the nearest magnitude.
-/
import PostfixSheet.Decimal.Rounding

namespace PostfixSheet.Decimal

/-- A tick is one part in `tickScale` of the unit. -/
def tickScale : Nat := 1 <<< 1074

/-- The lowest bit above the 52 bits of a significand. -/
def exponentUnit : Nat := 0x0010000000000000

/-- The bit of the sign, above the exponent. -/
def signUnit : Nat := 0x8000000000000000

/-- The bits of an infinite magnitude: all bits of the exponent, and no others. -/
def infinityBits : Nat := 0x7FF0000000000000

def nanBits : Nat := 0x7FF8000000000000

/-- The number of ticks in the finite magnitude with the given bits.  The lowest
52 bits are the significand's; above them stands the exponent field, which is 0
for the magnitudes that lack the leading bit. -/
def ticks (bits : Nat) : Nat :=
  if bits < exponentUnit then bits
  else (bits % exponentUnit + exponentUnit) <<< (bits / exponentUnit - 1)

/-- The bits of the magnitude nearest to `num / den`, an exact half going to the
even significand.  The significand keeps 53 binary digits, so that `drop` digits
of the count of ticks are rounded away; a carry out of the significand runs into
the exponent field, and what passes the largest exponent is infinite. -/
def nearestBits (num den : Nat) : Nat :=
  let drop := (num * tickScale / den).log2 - 52
  min (drop * exponentUnit + divNearest (num * tickScale) (den <<< drop)) infinityBits

/-- What a floating-point number stands for. -/
inductive Exact where
  | nan
  | infinite (negative : Bool)
  | finite (negative : Bool) (ticks : Nat)
  deriving DecidableEq, Repr

/-- The exact meaning of a floating-point number.  The top bit is the sign, also
of a zero. -/
def exact (x : Float) : Exact :=
  let bits := x.toBits.toNat
  let negative := decide (signUnit ≤ bits)
  let magnitude := bits % signUnit
  if magnitude < infinityBits then .finite negative (ticks magnitude)
  else if magnitude = infinityBits then .infinite negative
  else .nan

def ofMagnitude (negative : Bool) (bits : Nat) : Float :=
  Float.ofBits (UInt64.ofNat (if negative then bits + signUnit else bits))

end PostfixSheet.Decimal
