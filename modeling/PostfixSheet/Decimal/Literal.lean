/-
Number literals.

A literal is an optional sign and then digits with an optional point and an
optional exponent, or one of the words Infinity and NaN.  Its value is the
floating-point number nearest to what is written.
-/
import PostfixSheet.Decimal.Binary64
import PostfixSheet.Text.Numeral

namespace PostfixSheet.Decimal

open Text

/-- A number as it is written: a decimal stands for
`coefficient * 10 ^ exponent`. -/
inductive Literal where
  | decimal (negative : Bool) (coefficient : Nat) (exponent : Int)
  | infinity (negative : Bool)
  | nan
  deriving DecidableEq, Repr

namespace Literal

/-- Splits off one sign; no sign counts as a plus. -/
def splitSign : List Char → Bool × List Char
  | '-' :: cs => (true, cs)
  | '+' :: cs => (false, cs)
  | cs => (false, cs)

/-- The exponent after the digits: nothing at all, or `e` or `E`, an optional
sign and digits. -/
def exponent? : List Char → Option Int
  | [] => some 0
  | mark :: cs =>
    let (negative, digits) := splitSign cs
    if (mark = 'e' ∨ mark = 'E') ∧ isDigits digits then
      some (if negative then -(digitsValue digits : Int) else digitsValue digits)
    else none

/-- Splits off a point and the digits after it, if there is a point. -/
def splitFraction : List Char → List Char × List Char
  | '.' :: cs => (cs.takeWhile Char.isDigit, cs.dropWhile Char.isDigit)
  | cs => ([], cs)

/-- A decimal without its sign: a digit is needed before the point or after it. -/
def unsigned? (cs : List Char) : Option (Nat × Int) :=
  let whole := cs.takeWhile Char.isDigit
  let (fraction, rest) := splitFraction (cs.dropWhile Char.isDigit)
  if (whole ++ fraction).isEmpty then none
  else (exponent? rest).map fun exponent =>
    (digitsValue (whole ++ fraction), exponent - fraction.length)

/-- Reads a literal, which has to be the whole text. -/
def ofText? (text : String) : Option Literal :=
  let (negative, body) := splitSign text.toList
  if body = "Infinity".toList then some (.infinity negative)
  else if body = "NaN".toList then some .nan
  else (unsigned? body).map fun (coefficient, exponent) =>
    .decimal negative coefficient exponent

/-- The bits of the magnitude nearest to `coefficient * 10 ^ exponent`.  Powers of
ten that are out of reach are never built: `10 ^ 310` is above every finite
number, and as `10` is above `2 ^ 3`, dividing by `10 ^ k` with
`coefficient.log2 + 1080 < 3 * k` leaves less than half a tick. -/
def magnitude (coefficient : Nat) : Int → Nat
  | .ofNat k =>
    if coefficient = 0 then 0
    else if k < 310 then nearestBits (coefficient * tenPow k) 1
    else infinityBits
  | .negSucc k =>
    if coefficient.log2 + 1080 < 3 * (k + 1) then 0
    else nearestBits coefficient (tenPow (k + 1))

def value : Literal → Float
  | .decimal negative coefficient exponent =>
    ofMagnitude negative (magnitude coefficient exponent)
  | .infinity negative => ofMagnitude negative infinityBits
  | .nan => ofMagnitude false nanBits

end Literal

end PostfixSheet.Decimal
