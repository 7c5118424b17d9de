/-
The work that evaluations do.

A cell gets its value from one run of its formula.  So the runs that have been made and
the cells that wait for theirs are counted together: entering a formula adds to the
count, and the value of the cell takes off as much again.
-/
import PostfixSheet.Proofs.Settling

namespace PostfixSheet

namespace Run

variable {sheet : Sheet} {run : Run sheet} {place : Fin sheet.size}

/-- The runs of formulas so far, and one for each cell without a value. -/
def workload (run : Run sheet) : Nat :=
  run.progress.evaluations + run.pendingCount

/-- A count falls by one when one element drops out and all others stay as they are. -/
theorem countP_eq_succ {α : Type} [DecidableEq α] {p q : α → Bool} {xs : List α}
    (hnodup : xs.Nodup) {x : α} (hmem : x ∈ xs) (hq : q x = true) (hp : p x = false)
    (hsame : ∀ y, y ≠ x → p y = q y) : xs.countP q = xs.countP p + 1 := by
  have hperm := List.perm_cons_erase hmem
  have hrest : (xs.erase x).countP q = (xs.erase x).countP p := by
    apply List.countP_congr
    intro y hy
    rw [hsame y ((hnodup.mem_erase_iff).1 hy).1]
  rw [hperm.countP_eq q, hperm.countP_eq p, List.countP_cons_of_pos hq,
    List.countP_cons_of_neg (by simp [hp]), hrest]

theorem pendingCount_congr {other : Run sheet} (h : ∀ place, run.Done place ↔ other.Done place) :
    run.pendingCount = other.pendingCount := by
  simp [pendingCount, h]

theorem workload_enter (hpending : ¬run.Done place) (cell : Address) :
    (run.enter place cell).workload = run.workload + 1 := by
  have hruns : (run.enter place cell).progress.evaluations = run.progress.evaluations + 1 := rfl
  have hpending : (run.enter place cell).pendingCount = run.pendingCount :=
    pendingCount_congr fun other => done_enter hpending other
  rw [workload, workload, hruns, hpending]
  omega

theorem workload_follow (run : Run sheet) (place : Fin sheet.size) (reference : String) :
    (run.follow place reference).workload = run.workload := by
  have hpending : (run.follow place reference).pendingCount = run.pendingCount :=
    pendingCount_congr fun other => by simp [Done, follow]
  exact congrArg (run.progress.evaluations + ·) hpending

theorem workload_finish (hpending : ¬run.Done place) (value : Float) :
    (run.finish place value).workload + 1 = run.workload := by
  have hpending : run.pendingCount = (run.finish place value).pendingCount + 1 := by
    apply countP_eq_succ (List.nodup_finRange _) (List.mem_finRange place)
    · simpa using hpending
    · simp [Done, finish, Mark.isDone]
    · intro other hother
      simp [Done, finish, hother.symm]
  rw [workload, workload, hpending]
  exact Nat.add_assoc _ _ _

theorem workload_fresh (sheet : Sheet) (trail : Trail) :
    (⟨.fresh _, trail⟩ : Run sheet).workload = sheet.size := by
  have hpending : (⟨.fresh _, trail⟩ : Run sheet).pendingCount = sheet.size := by
    simp [pendingCount, Done, Mark.isDone]
  rw [workload, hpending]
  exact Nat.zero_add _

end Run

namespace Sheet

variable {sheet : Sheet} {cell : Address}

/-- Every formula that is run on the way to a value gives a value to its cell. -/
theorem workload_compute_of_hasValue (hvalue : sheet.HasValue cell) (run : Run sheet)
    (hclear : sheet.Clear cell run.progress) :
    (sheet.compute cell run).2.workload = run.workload := by
  refine hvalue.compute_induction
    (motive := fun cell run => (sheet.compute cell run).2.workload = run.workload)
    ?done ?entered run hclear
  case done =>
    intro cell run hsame
    rw [hsame]
  case entered =>
    intro cell value inside run hdenotes hclear hopen ih
    obtain ⟨last, hlater, hsettling, hlast⟩ := compute_of_settling hdenotes hclear hopen
      (J := fun _ current => current.workload = run.workload + 1)
      (Run.workload_enter hopen.pending cell) (by
        rintro before text target current next hrefers - hcurrent hclear rfl -
        rw [ih target hrefers _ hclear, Run.workload_follow, hcurrent])
    have hpending : ¬last.Done (sheet.index cell inside) := by
      simp [Run.Done, hsettling.entered, Mark.isDone]
    rw [hlater]
    exact Nat.add_right_cancel ((Run.workload_finish hpending value).trans hlast)

end Sheet

end PostfixSheet
