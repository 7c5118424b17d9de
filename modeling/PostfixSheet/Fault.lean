/-
Why a formula has no value.

Every fault names the cell whose formula failed, which need not be the cell that
was asked for.
-/
import PostfixSheet.Address

namespace PostfixSheet

structure Circle where
  /-- The cell whose reference closed the circle. -/
  trigger : Address
  triggerText : String
  /-- That reference, as written. -/
  reference : String
  /-- The cell that was under evaluation already. -/
  revisited : Address
  revisitedText : String
  /-- The way around, from the revisited cell through the trigger and back. -/
  chain : List Address
  deriving DecidableEq, Repr

namespace Circle

def message (circle : Circle) : String :=
  let chain := " -> ".intercalate (circle.chain.map Address.name)
  s!"Cyclical dependency detected while calculating `{circle.reference}` in expression " ++
    s!"`{circle.triggerText}` at cell {circle.trigger.name}: cell {circle.revisited.name} " ++
    s!"(`{circle.revisitedText}`) is already being calculated ({chain})"

end Circle

inductive Fault where
  /-- A reference has not the form of a cell's name. -/
  | malformed (cell : Address) (reference : String)
  /-- A reference names a cell outside the sheet. -/
  | outside (cell : Address) (reference : String) (rows cols : Nat)
  /-- An operator has too few operands. -/
  | underflow (cell : Address) (formula : String) (operator : String)
  /-- Other than one value is left at the end of a formula. -/
  | leftover (cell : Address) (formula : String) (remaining : Nat)
  /-- References lead around in a circle. -/
  | circular (circle : Circle)
  deriving DecidableEq, Repr

namespace Fault

/-- The fault of a reference in the formula of a cell. -/
def ofReference (cell : Address) (reference : String) : ReferenceFault → Fault
  | .malformed => .malformed cell reference
  | .outside rows cols => .outside cell reference rows cols

/-- The cell whose formula failed; a circle is put down to the cell that closed
it. -/
def cell : Fault → Address
  | .malformed cell _ => cell
  | .outside cell _ _ _ => cell
  | .underflow cell _ _ => cell
  | .leftover cell _ _ => cell
  | .circular circle => circle.trigger

def message : Fault → String
  | .malformed cell reference =>
    s!"Wrong cell reference `{reference}` in cell {cell.name}"
  | .outside cell reference rows cols =>
    s!"Wrong cell reference `{reference}` in cell {cell.name}: " ++
      (ReferenceFault.outside rows cols).message
  | .underflow cell formula operator =>
    s!"Mismatch of operands and operator in expression `{formula}` at cell {cell.name}: " ++
      s!"`{operator}` has too few operands"
  | .leftover cell formula remaining =>
    s!"Mismatch of operands and operator in expression `{formula}` at cell {cell.name}: " ++
      s!"{remaining} values left on the stack"
  | .circular circle => circle.message

end Fault

end PostfixSheet
