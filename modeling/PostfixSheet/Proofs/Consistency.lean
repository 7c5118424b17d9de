/-
What holds between the calls on a sheet.

Every kept value is the right one, and a cell that has been entered and left again
without its value is a cell that has none.  Calls keep this up, whatever trail they
are made on, so that they find the value of every cell that has one and no other.
-/
import PostfixSheet.History
import PostfixSheet.Proofs.Settling

namespace PostfixSheet

namespace Sheet

variable {sheet : Sheet} {cell : Address} {value : Float} {earlier later : Progress sheet.size}

/-- Kept values are the right ones, and only cells without a value have been left
behind. -/
structure Consistent (sheet : Sheet) (progress : Progress sheet.size) : Prop where
  sound : sheet.Sound progress
  barren : ∀ place : Fin sheet.size, progress.mark place = .started →
    ¬sheet.HasValue (sheet.address place)

theorem consistent_fresh (sheet : Sheet) : sheet.Consistent (.fresh _) where
  sound := sheet.sound_fresh
  barren := by intro place h; simp at h

theorem Consistent.of_marks (h : sheet.Consistent earlier)
    (hmarks : ∀ place, later.mark place = earlier.mark place) : sheet.Consistent later where
  sound := h.sound.of_marks hmarks
  barren := by
    intro place hstarted
    rw [hmarks] at hstarted
    exact h.barren place hstarted

theorem Consistent.clear (h : sheet.Consistent earlier) (hvalue : sheet.HasValue cell) :
    sheet.Clear cell earlier where
  sound := h.sound
  not_started := by
    intro place hreaches hstarted
    exact h.barren place hstarted (hvalue.of_reaches hreaches)

theorem Settles.consistent (h : sheet.Settles cell earlier later)
    (hconsistent : sheet.Consistent earlier) : sheet.Consistent later where
  sound := h.sound hconsistent.sound
  barren := by
    intro place hstarted
    exact hconsistent.barren place (h.started hstarted).2

theorem Consistent.start (h : sheet.Consistent earlier) {place : Fin sheet.size}
    (hnone : ¬sheet.HasValue (sheet.address place)) : sheet.Consistent (earlier.start place) where
  sound := by
    apply h.sound.start
    intro hdone
    obtain ⟨value, hmark⟩ := Mark.isDone_iff.1 hdone
    exact hnone ⟨value, h.sound.denotes place value hmark⟩
  barren := by
    intro other hstarted
    rw [Progress.mark_start] at hstarted
    split at hstarted
    · rename_i hsame
      exact hsame ▸ hnone
    · exact h.barren other hstarted

theorem Consistent.enter {run : Run sheet} (h : sheet.Consistent run.progress)
    (inside : sheet.Holds cell) (hnone : ¬sheet.HasValue cell) :
    sheet.Consistent (run.enter (sheet.index cell inside) cell).progress := by
  apply h.start
  rwa [address_index]

theorem Consistent.follow {run : Run sheet} (h : sheet.Consistent run.progress)
    (place : Fin sheet.size) (text : String) :
    sheet.Consistent (run.follow place text).progress :=
  h.of_marks (by simp [Run.follow])

/-- The formula of a cell without a value has no value either, and leaves the
progress consistent. -/
theorem consistent_computeBody {run : Run sheet} {inside : sheet.Holds cell}
    (hnone : ¬sheet.HasValue cell) (hconsistent : sheet.Consistent run.progress)
    (hfollowed : ∀ target text later,
      (run.enter (sheet.index cell inside) cell).Leads later →
      sheet.Consistent later.progress →
      sheet.Consistent (sheet.compute target
        (later.follow (sheet.index cell inside) text)).2.progress ∧
      ∀ value, (sheet.compute target
        (later.follow (sheet.index cell inside) text)).1 = .ok value →
        sheet.Denotes target value) :
    ∃ fault, (sheet.computeBody cell inside run).1 = .error fault ∧
      sheet.Consistent (sheet.computeBody cell inside run).2.progress := by
  have hkeeps := (sheet.site cell inside).evaluate_keeps
    (f := fun target reference later =>
      sheet.compute target (later.follow (sheet.index cell inside) reference))
    (I := fun before later => (run.enter (sheet.index cell inside) cell).Leads later ∧
      sheet.Consistent later.progress ∧
      ∀ text ∈ before, ∀ target,
        Address.locate text sheet.rows sheet.cols = .ok target → sheet.HasValue target)
    (E := fun _ later => sheet.Consistent later.progress)
    (by
      rintro before text after target later - hlocated ⟨hleads, hlater, hbefore⟩
      obtain ⟨hnext, hdenotes⟩ := hfollowed target text later hleads hlater
      refine ⟨fun value hvalue => ⟨?_, hnext, ?_⟩, fun _ _ => hnext⟩
      · exact (hleads.trans (later.leads_follow _ text)).trans (sheet.leads_compute target _)
      · intro other hother found hfound
        rcases List.mem_append.1 hother with hold | hnew
        · exact hbefore other hold found hfound
        · rw [List.mem_singleton.1 hnew] at hfound
          obtain rfl : target = found := Except.ok.inj (hlocated.symm.trans hfound)
          exact ⟨value, hdenotes value hvalue⟩)
    (fun _ _ _ _ h => h.2.1)
    (s := run.enter (sheet.index cell inside) cell)
    ⟨.refl _, hconsistent.enter inside hnone, by simp⟩
  cases hanswer : (sheet.computeBody cell inside run).1 with
  | error fault => exact ⟨fault, rfl, hkeeps.2 fault hanswer⟩
  | ok value =>
      -- all references had values, so that the cell would have one
      apply (hnone _).elim
      apply hasValue_of_refers inside (Site.fault?_eq_none_of_evaluate hanswer)
      intro target hrefers
      obtain ⟨text, htext, hlocated⟩ := (refers_iff inside).1 hrefers
      exact (hkeeps.1 value hanswer).2.2 text htext target hlocated

/-- Every evaluation keeps the progress consistent and finds no wrong value. -/
theorem consistent_compute (cell : Address) (run : Run sheet)
    (h : sheet.Consistent run.progress) :
    sheet.Consistent (sheet.compute cell run).2.progress ∧
      ∀ value, (sheet.compute cell run).1 = .ok value → sheet.Denotes cell value := by
  induction cell, run using compute_induction with
  | hstep cell run ih =>
      by_cases hvalue : sheet.HasValue cell
      · obtain ⟨value, hdenotes⟩ := hvalue
        obtain ⟨later, hlater, hsettles, -⟩ :=
          compute_settles hdenotes run (h.clear ⟨value, hdenotes⟩)
        rw [hlater]
        refine ⟨hsettles.consistent h, ?_⟩
        rintro other ⟨⟩
        exact hdenotes
      · rcases sheet.compute_cases cell run with
          houtside | ⟨inside, ⟨known, hknown⟩ | hguarded | hopen⟩
        · rw [compute_of_not_holds houtside]
          exact ⟨h, fun _ hfalse => by cases hfalse⟩
        · exact absurd ⟨known, h.sound.denotes_index inside hknown⟩ hvalue
        · rw [compute_of_guarded inside hguarded]
          exact ⟨h, fun _ hfalse => by cases hfalse⟩
        · obtain ⟨fault, hfault, hlater⟩ := consistent_computeBody hvalue h
            fun target text later hleads hlater =>
              ih inside hopen target text later hleads (hlater.follow _ text)
          rw [compute_error_of_open hopen hfault]
          exact ⟨hlater, fun _ hfalse => by cases hfalse⟩

theorem Consistent.compute_eq_ok_iff (h : sheet.Consistent earlier) (trail : Trail) :
    (sheet.compute cell ⟨earlier, trail⟩).1 = .ok value ↔ sheet.Denotes cell value := by
  constructor
  · exact (consistent_compute cell ⟨earlier, trail⟩ h).2 value
  · intro hdenotes
    obtain ⟨later, hlater, -⟩ :=
      compute_settles hdenotes ⟨earlier, trail⟩ (h.clear ⟨value, hdenotes⟩)
    rw [hlater]

/-- What every evaluation keeps up is kept up by evaluations one after the other. -/
theorem computeEach_keeps {I : Progress sheet.size → Prop}
    (hcompute : ∀ cell run, I run.progress → I (sheet.compute cell run).2.progress)
    (cells : List Address) (h : I earlier) : I (sheet.computeEach cells earlier).2 := by
  induction cells generalizing earlier with
  | nil => exact h
  | cons cell rest ih =>
      have hnext := hcompute cell ⟨earlier, .empty⟩ h
      rw [Sheet.computeEach]
      generalize sheet.compute cell ⟨earlier, .empty⟩ = outcome at *
      obtain ⟨answer, run⟩ := outcome
      cases answer with
      | ok value => exact ih hnext
      | error fault => exact hnext

/-- What every evaluation keeps up is kept up by calls of any kind. -/
theorem foldl_after_keeps {I : Progress sheet.size → Prop}
    (hcompute : ∀ cell run, I run.progress → I (sheet.compute cell run).2.progress)
    (calls : List Call) (h : I earlier) : I (calls.foldl sheet.after earlier) := by
  induction calls generalizing earlier with
  | nil => exact h
  | cons call rest ih =>
      apply ih
      cases call with
      | cell cell trail => exact hcompute cell ⟨earlier, trail⟩ h
      | all => exact computeEach_keeps hcompute sheet.addresses h

theorem Consistent.computeEach (h : sheet.Consistent earlier) (cells : List Address) :
    sheet.Consistent (sheet.computeEach cells earlier).2 :=
  computeEach_keeps (fun cell run hrun => (consistent_compute cell run hrun).1) cells h

theorem consistent_afterAll (sheet : Sheet) (calls : List Call) :
    sheet.Consistent (sheet.afterAll calls) :=
  foldl_after_keeps (fun cell run hrun => (consistent_compute cell run hrun).1) calls
    sheet.consistent_fresh

/-- Every evaluation writes stages and values so that they agree. -/
theorem agreeing_compute (cell : Address) (run : Run sheet) (h : run.progress.Agreeing) :
    (sheet.compute cell run).2.progress.Agreeing := by
  apply compute_keeps (I := fun run => run.progress.Agreeing)
  case henter =>
    intro cell inside run hopen hrun
    exact hrun.start hopen.pending
  case hfollow =>
    intro run place text hrun
    exact hrun.follow place text
  case hfinish =>
    intro run place value hrun
    exact hrun.finish place value
  case h => exact h

theorem agreeing_computeAll (h : earlier.Agreeing) : (sheet.computeAll earlier).2.Agreeing :=
  computeEach_keeps agreeing_compute sheet.addresses h

theorem agreeing_afterAll (sheet : Sheet) (calls : List Call) :
    (sheet.afterAll calls).Agreeing :=
  foldl_after_keeps agreeing_compute calls (Progress.agreeing_fresh _)

/-- Neither what was called before nor the trail of the caller changes the value of
a cell or makes a cell with a value fail. -/
theorem compute_ok_iff_fresh (sheet : Sheet) (calls : List Call) (cell : Address)
    (trail : Trail) (value : Float) :
    (sheet.compute cell ⟨sheet.afterAll calls, trail⟩).1 = .ok value ↔
      (sheet.compute cell ⟨.fresh _, .empty⟩).1 = .ok value := by
  rw [(sheet.consistent_afterAll calls).compute_eq_ok_iff,
    sheet.consistent_fresh.compute_eq_ok_iff]

end Sheet

end PostfixSheet
