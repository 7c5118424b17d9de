/-
The states that a calculation can come to.

Cells may be evaluated one by one in any order, on top of any trail, and the whole
sheet may be calculated in between; failures leave their traces.
-/
import PostfixSheet.Compute

namespace PostfixSheet

namespace Sheet

inductive Call where
  | cell (cell : Address) (trail : Trail)
  | all

/-- The progress after a call. -/
def after (sheet : Sheet) (progress : Progress sheet.size) : Call → Progress sheet.size
  | .cell cell trail => (sheet.compute cell ⟨progress, trail⟩).2.progress
  | .all => (sheet.computeAll progress).2

def afterAll (sheet : Sheet) (calls : List Call) : Progress sheet.size :=
  calls.foldl sheet.after (.fresh _)

end Sheet

end PostfixSheet
