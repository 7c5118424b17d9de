/-
Addresses of cells.

A cell is named by the letter of its row and the number of its column, counted
from one.  Names are read in either letter case and with leading zeros; they are
written in upper case without zeros.
-/
import PostfixSheet.Text.Numeral

namespace PostfixSheet

open Text

/-- A position in a sheet; row and column are words, counted from zero. -/
structure Address where
  row : Nat
  col : Nat
  deriving DecidableEq, Repr

/-- Why a reference names no cell of a sheet. -/
inductive ReferenceFault where
  /-- The reference has not the form of a cell's name. -/
  | malformed
  /-- The named cell lies outside a sheet of this size. -/
  | outside (rows cols : Nat)
  deriving DecidableEq, Repr

namespace ReferenceFault

def message : ReferenceFault → String
  | .malformed => "not a single row letter followed by a column number"
  | .outside rows cols => s!"outside the {rows}x{cols} grid"

end ReferenceFault

namespace Address

/-- Rows have letters, so there are as many rows as letters. -/
def maxRows : Nat := 26

def rowLetter? (row : Nat) : Option Char :=
  if row < maxRows then some (Char.ofNat ('A'.toNat + row)) else none

/-- The row of a letter, in either case. -/
def rowOfLetter (letter : Char) : Nat :=
  letter.toUpper.toNat - 'A'.toNat

/-- The name of a cell.  A row past the last letter is written as a number. -/
def name (cell : Address) : String :=
  match rowLetter? cell.row with
  | some letter => String.ofList (letter :: Nat.toDigits 10 (nextWord cell.col))
  | none => s!"R{nextWord cell.row}C{nextWord cell.col}"

/-- The name of a cell, if there are the sums that it is written with. -/
def name? (overflow : Overflow) (cell : Address) : Option String :=
  match rowLetter? cell.row with
  | some letter =>
    (overflow.nextWord? cell.col).map fun col => String.ofList (letter :: Nat.toDigits 10 col)
  | none =>
    (overflow.nextWord? cell.row).bind fun row =>
      (overflow.nextWord? cell.col).map fun col => s!"R{row}C{col}"

/-- Takes a reference apart into its row and its column number, which is still
counted from one.  The column number has to fit a word. -/
def parts? (text : String) : Option (Nat × Nat) :=
  match text.toList with
  | [] => none
  | letter :: digits =>
    if letter.isAlpha ∧ isDigits digits then
      (word? digits).map fun number => (rowOfLetter letter, number)
    else none

/-- The cell with this name, in a sheet of any size.  No cell has column
number zero. -/
def ofName? (text : String) : Option Address :=
  match parts? text with
  | some (row, number + 1) => some ⟨row, number⟩
  | _ => none

def locate (text : String) (rows cols : Nat) : Except ReferenceFault Address :=
  match parts? text with
  | none => .error .malformed
  | some (_, 0) => .error (.outside rows cols)
  | some (row, col + 1) =>
    if row < rows ∧ col < cols then .ok ⟨row, col⟩ else .error (.outside rows cols)

end Address

end PostfixSheet
