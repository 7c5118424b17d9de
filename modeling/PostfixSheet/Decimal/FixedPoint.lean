/-
Numbers in fixed-point notation.

A finite number is written with exactly the asked-for number of decimal places:
the exact binary value, rounded half to even.  The sign of a negative number is
kept when its digits round to zero, and negative zero has it too.
-/
import PostfixSheet.Decimal.Binary64

namespace PostfixSheet.Decimal

/-- The lowest `width` decimal digits of a number below `10 ^ width`, with leading
zeros.  Long rows of digits are made in halves. -/
def paddedDigits (width n : Nat) : List Char :=
  if width ≤ 32 then (Nat.toDigits 10 n).leftpad width '0'
  else
    paddedDigits (width - width / 2) (n / tenPow (width / 2)) ++
      paddedDigits (width / 2) (n % tenPow (width / 2))
termination_by width

/-- The number `coefficient / 10 ^ places`, with all its places. -/
def placesText (coefficient places : Nat) : String :=
  let whole := toString (coefficient / tenPow places)
  if places = 0 then whole
  else
    whole ++ "." ++ String.ofList (paddedDigits places (coefficient % tenPow places))

def signText (negative : Bool) : String :=
  if negative then "-" else ""

/-- The largest number of decimal places that can be written. -/
def maxPlaces : Nat := 65535

/-- A number with `places` decimal places.  There is no text for a finite number
with more than `maxPlaces` of them; numbers that are not finite have a name and
no places. -/
def fixed? (places : Nat) (x : Float) : Option String :=
  match exact x with
  | .nan => some "NaN"
  | .infinite negative => some (signText negative ++ "Infinity")
  | .finite negative ticks =>
    if places ≤ maxPlaces then
      some (signText negative ++
        placesText (divNearest (ticks * tenPow places) tickScale) places)
    else none

end PostfixSheet.Decimal
