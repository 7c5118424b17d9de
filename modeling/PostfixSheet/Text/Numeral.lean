/-
Natural numbers in decimal digits.

A count is written in ASCII digits, after at most one plus sign; it has to fit
a machine word, while leading zeros do not matter.
-/
namespace PostfixSheet.Text

/-- The largest number that a 64-bit word holds. -/
def maxWord : Nat := 0xFFFFFFFFFFFFFFFF

/-- The word after this one.  Zero comes after the largest. -/
def nextWord (word : Nat) : Nat :=
  if word < maxWord then word + 1 else 0

theorem nextWord_of_lt {word : Nat} (h : word < maxWord) : nextWord word = word + 1 :=
  if_pos h

/-- What becomes of a sum that is too large for a word. -/
inductive Overflow where
  /-- It starts again from zero. -/
  | wraps
  /-- There is no sum, and the program stops. -/
  | stops
  deriving DecidableEq, Repr

/-- The word after this one, if there is a sum. -/
def Overflow.nextWord? (overflow : Overflow) (word : Nat) : Option Nat :=
  if word < maxWord then some (word + 1)
  else
    match overflow with
    | .wraps => some 0
    | .stops => none

namespace Overflow

variable {word : Nat}

end Overflow

/-- One or more ASCII digits and nothing else. -/
def isDigits (cs : List Char) : Bool :=
  !cs.isEmpty && cs.all Char.isDigit

def digitsValue (digits : List Char) : Nat :=
  Nat.ofDigitChars 10 digits 0

/-- The number that the digits denote, if a word holds it. -/
def word? (digits : List Char) : Option Nat :=
  if digitsValue digits ≤ maxWord then some (digitsValue digits) else none

def dropPlus : List Char → List Char
  | '+' :: cs => cs
  | cs => cs

/-- Reads a count: digits, with a plus sign in front or without, for a number
that a word holds. -/
def count? (text : String) : Option Nat :=
  let digits := dropPlus text.toList
  if isDigits digits then word? digits else none

/-- What is written for a number reads back as that number. -/
theorem digitsValue_toDigits (n : Nat) : digitsValue (Nat.toDigits 10 n) = n :=
  Nat.ofDigitChars_ten_toDigits

end PostfixSheet.Text
