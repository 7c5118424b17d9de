/-
The ways in which the evaluation of a cell can go.

Either it answers at once and changes nothing, or the formula of the cell is run
on the entered cell.  Rules about evaluation go by induction on the rank, which
is lower for every reference that is followed.
-/
import PostfixSheet.Compute
import PostfixSheet.Proofs.Evaluation

namespace PostfixSheet

/-- A cell can be entered when nothing is known about its value and it is not
guarded. -/
structure Run.Open {sheet : Sheet} (run : Run sheet) (place : Fin sheet.size) : Prop where
  pending : ¬run.Done place
  free : ¬run.Guarded place

namespace Sheet

variable {sheet : Sheet} {cell : Address} {run : Run sheet}

theorem compute_of_not_holds (h : ¬sheet.Holds cell) :
    sheet.compute cell run =
      (.error (.outside cell cell.name sheet.rows sheet.cols), run) := by
  rw [compute_eq, dif_neg h]

theorem compute_of_done (inside : sheet.Holds cell) {value : Float}
    (h : run.progress.mark (sheet.index cell inside) = .done value) :
    sheet.compute cell run = (.ok value, run) := by
  rw [compute_eq, dif_pos inside]
  simp only [h, Mark.value?]

theorem compute_of_guarded (inside : sheet.Holds cell)
    (h : run.Guarded (sheet.index cell inside)) :
    sheet.compute cell run = (.error (.circular (sheet.circleAt run cell)), run) := by
  rw [compute_eq, dif_pos inside]
  simp only [h.1, Mark.value?, h, if_true]

/-- Runs the formula of a cell that has been entered. -/
def computeBody (sheet : Sheet) (cell : Address) (inside : sheet.Holds cell) (run : Run sheet) :
    Except Fault Float × Run sheet :=
  (sheet.site cell inside).evaluate
    (fun target reference later =>
      sheet.compute target (later.follow (sheet.index cell inside) reference))
    (run.enter (sheet.index cell inside) cell)

theorem compute_cases (sheet : Sheet) (cell : Address) (run : Run sheet) :
    ¬sheet.Holds cell ∨
      ∃ inside : sheet.Holds cell,
        (∃ value, run.progress.mark (sheet.index cell inside) = .done value) ∨
          run.Guarded (sheet.index cell inside) ∨ run.Open (sheet.index cell inside) := by
  by_cases inside : sheet.Holds cell
  · refine Or.inr ⟨inside, ?_⟩
    by_cases hguarded : run.Guarded (sheet.index cell inside)
    · exact Or.inr (Or.inl hguarded)
    · cases hmark : run.progress.mark (sheet.index cell inside) with
      | done value => exact Or.inl ⟨value, rfl⟩
      | untouched | started =>
          exact Or.inr (Or.inr ⟨by simp [Run.Done, hmark, Mark.isDone], hguarded⟩)
  · exact Or.inl inside

theorem compute_of_open {inside : sheet.Holds cell} (h : run.Open (sheet.index cell inside)) :
    sheet.compute cell run =
      match sheet.computeBody cell inside run with
      | (.ok value, later) => (.ok value, later.finish (sheet.index cell inside) value)
      | (.error fault, later) => (.error fault, later) := by
  rw [compute_eq, dif_pos inside]
  have hunknown : (run.progress.mark (sheet.index cell inside)).value? = none := by
    cases hmark : run.progress.mark (sheet.index cell inside) with
    | done value => exact absurd (Mark.isDone_iff.2 ⟨value, hmark⟩) h.pending
    | untouched | started => rfl
  simp only [hunknown, h.free, if_false]
  rfl

theorem compute_answer_of_open {inside : sheet.Holds cell}
    (h : run.Open (sheet.index cell inside)) :
    (sheet.compute cell run).1 = (sheet.computeBody cell inside run).1 := by
  rw [compute_of_open h]
  rcases sheet.computeBody cell inside run with ⟨_ | _, later⟩ <;> rfl

theorem compute_ok_of_open {inside : sheet.Holds cell} (h : run.Open (sheet.index cell inside))
    {value : Float} (hbody : (sheet.computeBody cell inside run).1 = .ok value) :
    sheet.compute cell run =
      (.ok value,
        (sheet.computeBody cell inside run).2.finish (sheet.index cell inside) value) := by
  rw [compute_of_open h]
  generalize sheet.computeBody cell inside run = outcome at *
  obtain ⟨answer, later⟩ := outcome
  obtain rfl : answer = .ok value := hbody
  rfl

theorem compute_error_of_open {inside : sheet.Holds cell} (h : run.Open (sheet.index cell inside))
    {fault : Fault} (hbody : (sheet.computeBody cell inside run).1 = .error fault) :
    sheet.compute cell run = (.error fault, (sheet.computeBody cell inside run).2) := by
  rw [compute_of_open h]
  generalize sheet.computeBody cell inside run = outcome at *
  obtain ⟨answer, later⟩ := outcome
  obtain rfl : answer = .error fault := hbody
  rfl

theorem leads_compute (sheet : Sheet) (cell : Address) (run : Run sheet) :
    run.Leads (sheet.compute cell run).2 :=
  (sheet.computeFrom cell run).2

/-- What holds of the references that a formula follows, in whatever state later
than its entry, may be used for the formula. -/
theorem compute_induction {motive : Address → Run sheet → Prop}
    (hstep : ∀ cell run,
      (∀ inside : sheet.Holds cell, run.Open (sheet.index cell inside) → ∀ target text later,
        (run.enter (sheet.index cell inside) cell).Leads later →
        motive target (later.follow (sheet.index cell inside) text)) →
      motive cell run)
    (cell : Address) (run : Run sheet) : motive cell run := by
  induction hrank : run.rank using Nat.strongRecOn generalizing cell run with
  | ind rank ih =>
      apply hstep
      intro inside hopen target text later hleads
      have hentered := Run.rank_enter_lt hopen.pending hopen.free
      rw [address_index inside] at hentered
      have hfollowed := later.leads_follow (sheet.index cell inside) text
      apply ih _ _ target _ rfl
      rw [← hrank]
      exact Nat.lt_of_le_of_lt (Nat.le_trans hfollowed.2 hleads.2) hentered

/-- What holds of a run, and is kept up by entering a formula, following a reference and
keeping a value, holds after an evaluation. -/
theorem compute_keeps {I : Run sheet → Prop}
    (henter : ∀ cell, ∀ inside : sheet.Holds cell, ∀ run, run.Open (sheet.index cell inside) →
      I run → I (run.enter (sheet.index cell inside) cell))
    (hfollow : ∀ run place text, I run → I (run.follow place text))
    (hfinish : ∀ run place value, I run → I (run.finish place value))
    (cell : Address) (run : Run sheet) (h : I run) : I (sheet.compute cell run).2 := by
  induction cell, run using compute_induction with
  | hstep cell run ih =>
      rcases sheet.compute_cases cell run with
        houtside | ⟨inside, ⟨known, hknown⟩ | hguarded | hopen⟩
      · rwa [compute_of_not_holds houtside]
      · rwa [compute_of_done inside hknown]
      · rwa [compute_of_guarded inside hguarded]
      · obtain ⟨hvalue, hfault⟩ := (sheet.site cell inside).evaluate_keeps
          (f := fun target reference later =>
            sheet.compute target (later.follow (sheet.index cell inside) reference))
          (I := fun _ later => (run.enter (sheet.index cell inside) cell).Leads later ∧ I later)
          (E := fun _ later => I later)
          (by
            rintro before text after target later - - ⟨hleads, hlater⟩
            have hnext := ih inside hopen target text later hleads (hfollow later _ text hlater)
            refine ⟨fun _ _ => ⟨?_, hnext⟩, fun _ _ => hnext⟩
            exact (hleads.trans (later.leads_follow _ text)).trans (sheet.leads_compute target _))
          (fun _ _ _ _ hlater => hlater.2)
          (s := run.enter (sheet.index cell inside) cell)
          ⟨.refl _, henter cell inside run hopen h⟩
        cases hbody : (sheet.computeBody cell inside run).1 with
        | ok value =>
            rw [compute_ok_of_open hopen hbody]
            exact hfinish _ _ value (hvalue value hbody).2
        | error fault =>
            rw [compute_error_of_open hopen hbody]
            exact hfault fault hbody

theorem mark_ne_untouched_compute {place : Fin sheet.size}
    (h : run.progress.mark place ≠ .untouched) (cell : Address) :
    (sheet.compute cell run).2.progress.mark place ≠ .untouched := by
  apply compute_keeps (I := fun run => run.progress.mark place ≠ .untouched)
  case henter =>
    intro cell inside run _ hrun
    rw [Run.enter, Progress.mark_start]
    split
    · exact Mark.noConfusion
    · exact hrun
  case hfollow =>
    intro run place text hrun
    rwa [Run.follow, Progress.mark_follow]
  case hfinish =>
    intro run place value hrun
    rw [Run.finish, Progress.mark_finish]
    split
    · exact Mark.noConfusion
    · exact hrun
  case h => exact h

end Sheet

end PostfixSheet
