/-
What can go wrong with a sheet as a whole: while it is read, while it is
calculated and while its values are written.
-/
import PostfixSheet.Fault
import PostfixSheet.Sheet

namespace PostfixSheet

/-- Why the text of a sheet is refused. -/
inductive TextFault where
  | missingHeader
  | headerFields (found : Nat)
  | dimension (text : String)
  | zeroColumns
  | zeroRows
  | tooManyRows (rows : Nat)
  | tooManyCells (expected : Nat)
  | tooFewCells (expected found : Nat)
  | blank (line : Nat) (cell : Address)
  | build (fault : BuildFault)
  deriving DecidableEq, Repr

namespace TextFault

def countComplaint : String :=
  "The given number of cell values do not match with the given spreadsheet size: "

def message : TextFault → String
  | .missingHeader => "Input is empty: expected a '<columns> <rows>' header line"
  | .headerFields found =>
    s!"No. of arguments in the first line of input is not 2 (found {found})"
  | .dimension text => s!"The given row or column argument `{text}` is not a number"
  | .zeroColumns => "Column size cannot be 0"
  | .zeroRows => "Row size cannot be 0"
  | .tooManyRows rows =>
    s!"Row size cannot be greater than {Address.maxRows} (got {rows})"
  | .tooManyCells expected => countComplaint ++ s!"more than {expected} expressions"
  | .tooFewCells expected found =>
    countComplaint ++ s!"expected {expected}, found {found}"
  | .blank line cell => s!"Expression for cell {cell.name} (line {line}) is empty"
  | .build fault => fault.message

end TextFault

inductive FileFault where
  | missing
  | isDirectory
  | notDirectory
  | other (reason : String)
  deriving DecidableEq, Repr

namespace FileFault

def message : FileFault → String
  | .missing => "No such file or directory (os error 2)"
  | .isDirectory => "Is a directory (os error 21)"
  | .notDirectory => "Not a directory (os error 20)"
  | .other reason => reason

end FileFault

inductive IoFault where
  | file (fault : FileFault)
  /-- A line that is not UTF-8. -/
  | encoding
  /-- The receiver has no room left. -/
  | full
  deriving DecidableEq, Repr

namespace IoFault

def message : IoFault → String
  | .file fault => fault.message
  | .encoding => "stream did not contain valid UTF-8"
  | .full => "failed to write whole buffer"

end IoFault

inductive Problem where
  | io (fault : IoFault)
  | text (fault : TextFault)
  | formula (fault : Fault)
  | notCalculated
  /-- A finite value has no text with so many decimal places. -/
  | places (asked : Nat)
  deriving DecidableEq, Repr

namespace Problem

def message : Problem → String
  | .io fault => s!"IO error: {fault.message}"
  | .text fault => fault.message
  | .formula fault => fault.message
  | .notCalculated => "Sheet has not been calculated"
  | .places asked => s!"a number cannot have {asked} decimal places"

/-- The problem behind this one, if it only passes another one on. -/
def cause? : Problem → Option String
  | .io fault => some fault.message
  | _ => none

/-- The problem and what is behind it, in one line. -/
def story (problem : Problem) : String :=
  ": ".intercalate (problem.message :: problem.cause?.toList)

end Problem

end PostfixSheet
