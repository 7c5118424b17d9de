/-
The values of a sheet as text.

The text has the same header as the sheet's own text, and one value on a line in
place of each formula.
-/
import PostfixSheet.Decimal.FixedPoint
import PostfixSheet.Progress
import PostfixSheet.Sink

namespace PostfixSheet

namespace Results

def headerLine (sheet : Sheet) : String :=
  s!"{sheet.cols} {sheet.rows}\n"

def valueLine (places : Nat) (value : Float) : Except Problem String :=
  match Decimal.fixed? places value with
  | some text => .ok (text ++ "\n")
  | none => .error (.places places)

/-- The number of decimal places unless another one is asked for. -/
def defaultPlaces : Nat := 5

/-- Writes the values of a sheet, or nothing while a value is missing. -/
def write (sheet : Sheet) (progress : Progress sheet.size) (places : Nat) (sink : Sink) :
    Except Problem Unit × Sink :=
  match progress.values? with
  | none => (.error .notCalculated, sink)
  | some values => sink.putAll (.ok (headerLine sheet) :: values.map (valueLine places))

end Results

end PostfixSheet
