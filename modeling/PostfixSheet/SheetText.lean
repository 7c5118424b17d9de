/-
Reading a sheet from its text.

The first line holds the number of columns and the number of rows; the formulas
follow, one on a line, row by row.  The text is taken line by line, and the first
line at fault decides the answer.
-/
import PostfixSheet.Problem
import PostfixSheet.Text.Lines

namespace PostfixSheet

open Text

/-- The first line of a sheet's text. -/
structure Header where
  cols : Nat
  rows : Nat
  deriving DecidableEq, Repr

namespace Header

def dimension (field : String) : Except TextFault Nat :=
  match count? field with
  | some number => .ok number
  | none => .error (.dimension field)

/-- Reads a header: two numbers between blanks, columns first. -/
def ofText (line : String) : Except TextFault Header :=
  match words isBlank line with
  | [colsField, rowsField] => do
    let cols ← dimension colsField
    let rows ← dimension rowsField
    if cols = 0 then throw .zeroColumns
    if rows = 0 then throw .zeroRows
    if rows > Address.maxRows then throw (.tooManyRows rows)
    if cols * rows > maxWord then throw (.dimension (trim line))
    return { cols, rows }
  | fields => throw (.headerFields fields.length)

def size (header : Header) : Nat :=
  header.cols * header.rows

end Header

namespace SheetText

/-- Takes one more line as the formula of the next cell. -/
def takeLine (header : Header) (texts : Array String) (line : List UInt8) :
    Except Problem (Array String) :=
  match decode? line with
  | none => .error (.io .encoding)
  | some text =>
    if texts.size = header.size then .error (.text (.tooManyCells header.size))
    else if allBlank text then
      .error (.text (.blank (texts.size + 2) (Sheet.addressIn header.cols texts.size)))
    else .ok (texts.push text)

/-- Takes the lines after the header, of which there have to be just enough. -/
def takeLines (header : Header) (rest : List (List UInt8)) :
    Except Problem (List String) := do
  let texts ← rest.foldlM (takeLine header) #[]
  if texts.size < header.size then
    throw (.text (.tooFewCells header.size texts.size))
  return texts.toList

def readLines : List (List UInt8) → Except Problem Sheet
  | [] => throw (.text .missingHeader)
  | first :: rest => do
    let some line := decode? first | throw (.io .encoding)
    let header ← (Header.ofText line).mapError Problem.text
    let texts ← takeLines header rest
    (Sheet.ofTexts header.rows header.cols texts).mapError fun fault =>
      .text (.build fault)

def read (bytes : List UInt8) : Except Problem Sheet :=
  readLines (lines bytes)

end SheetText

end PostfixSheet
