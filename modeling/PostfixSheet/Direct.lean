/-
The value of a cell found from the formulas alone.

No value is kept, and a cell is evaluated anew at every reference to it.  The
cells that are being evaluated are handed down as a list of ancestors, the oldest
one first; a cell that is its own ancestor closes a circle.
-/
import PostfixSheet.Compute

namespace PostfixSheet

namespace Sheet

/-- The circle that a reference closes by leading back to an ancestor. -/
def circleFrom (sheet : Sheet) (ancestors : List Address) (reference : String)
    (revisited : Address) : Circle :=
  let trigger := ancestors.getLast?.getD revisited
  { trigger
    triggerText := sheet.textOf trigger
    reference
    revisited
    revisitedText := sheet.textOf revisited
    chain := ancestors.dropWhile (· ≠ revisited) ++ [revisited] }

theorem mem_addresses {sheet : Sheet} {cell : Address} (h : sheet.Holds cell) :
    cell ∈ sheet.addresses :=
  List.mem_map.2
    ⟨sheet.index cell h, List.mem_range.2 (index_lt h), address_index h⟩

def freeCount (sheet : Sheet) (ancestors : List Address) : Nat :=
  sheet.addresses.countP (· ∉ ancestors)

/-- A new ancestor leaves fewer cells free. -/
theorem freeCount_lt {sheet : Sheet} {ancestors : List Address} {cell : Address}
    (inside : sheet.Holds cell) (hnew : cell ∉ ancestors) :
    sheet.freeCount (ancestors ++ [cell]) < sheet.freeCount ancestors :=
  Run.countP_lt_countP (by simp +contextual) (mem_addresses inside)
    (by simpa using hnew) (by simp)

/-- Evaluates a cell below its ancestors, for a reference in the last of them. -/
def direct (sheet : Sheet) (ancestors : List Address) (reference : String)
    (cell : Address) : Except Fault Float :=
  if inside : sheet.Holds cell then
    if hcircle : cell ∈ ancestors then
      .error (.circular (sheet.circleFrom ancestors reference cell))
    else
      have := freeCount_lt inside hcircle
      ((sheet.site cell inside).evaluate
        (fun target text state =>
          (direct sheet (ancestors ++ [cell]) text target, state)) ()).1
  else .error (.outside cell cell.name sheet.rows sheet.cols)
termination_by sheet.freeCount ancestors

end Sheet

end PostfixSheet
