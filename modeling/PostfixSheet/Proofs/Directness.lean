/-
Evaluation with kept values against evaluation from the formulas alone.

Called without a trail, a sheet answers as if nothing had ever been calculated on
it: with the same value, or with the same fault and everything that the fault
says.  Below a cell with a value nothing can go wrong on either side.  Any other
cell is entered on both sides with the same cells above it, and the reference that
was followed last from the latest of them is the one that led here.
-/
import PostfixSheet.Direct
import PostfixSheet.Proofs.Consistency

namespace PostfixSheet

namespace Sheet

variable {sheet : Sheet} {cell target : Address} {value : Float} {ancestors : List Address}
  {reference : String} {run : Run sheet}

theorem direct_of_not_holds (h : ¬sheet.Holds cell) :
    sheet.direct ancestors reference cell =
      .error (.outside cell cell.name sheet.rows sheet.cols) := by
  rw [direct, dif_neg h]

theorem direct_of_mem (inside : sheet.Holds cell) (h : cell ∈ ancestors) :
    sheet.direct ancestors reference cell =
      .error (.circular (sheet.circleFrom ancestors reference cell)) := by
  rw [direct, dif_pos inside, dif_pos h]

theorem direct_of_not_mem (inside : sheet.Holds cell) (h : cell ∉ ancestors) :
    sheet.direct ancestors reference cell =
      ((sheet.site cell inside).evaluate
        (fun target text s => (sheet.direct (ancestors ++ [cell]) text target, s)) ()).1 := by
  rw [direct, dif_pos inside, dif_neg h]

/-- A cell has its value below all ancestors that it does not reach. -/
theorem direct_of_denotes (h : sheet.Denotes cell value)
    (hoff : ∀ other ∈ ancestors, ¬sheet.Reaches cell other) (reference : String) :
    sheet.direct ancestors reference cell = .ok value := by
  induction h generalizing ancestors reference with
  | @intro cell value inside values operands evaluated ih =>
      have hvalue : sheet.HasValue cell := ⟨value, .intro inside values operands evaluated⟩
      have hnew : cell ∉ ancestors := fun hmem => hoff cell hmem (.refl cell)
      rw [direct_of_not_mem inside hnew, ← evaluated]
      refine (Site.evaluate_agree _ (R := fun _ _ _ => True) (E := fun _ _ _ => True)
        ?_ (fun _ _ _ _ _ _ => trivial) trivial).answer
      intro before text after target _ _ hsplit hlocated _
      have hrefers := refers_of_split inside hsplit hlocated
      refine ⟨ih target hrefers ?_ text, fun _ _ => trivial, fun _ _ => trivial⟩
      intro other hother hreaches
      rcases List.mem_append.1 hother with hold | hself
      · exact hoff other hold (.step hrefers hreaches)
      · rw [List.mem_singleton.1 hself] at hreaches
        exact hvalue.not_reaches hrefers hreaches

/-- All cells on the trail have been entered. -/
def Tracked (run : Run sheet) : Prop :=
  ∀ other ∈ run.trail, ∃ inside : sheet.Holds other,
    run.progress.mark (sheet.index other inside) = .started

/-- The latest cell on the trail follows this reference, if there is such a cell. -/
def Following (run : Run sheet) (reference : String) : Prop :=
  ∀ last, run.trail.last? = some last → ∀ inside : sheet.Holds last,
    run.progress.lastReference (sheet.index last inside) = some reference

theorem Tracked.off (h : Tracked run) (hconsistent : sheet.Consistent run.progress)
    (hvalue : sheet.HasValue cell) : ∀ other ∈ run.trail, ¬sheet.Reaches cell other := by
  intro other hother hreaches
  obtain ⟨inside, hstarted⟩ := h other hother
  apply hconsistent.barren _ hstarted
  rw [address_index]
  exact hvalue.of_reaches hreaches

/-- A successful evaluation restores the trail and leaves its cells as they were. -/
theorem Tracked.compute (h : Tracked run) (hconsistent : sheet.Consistent run.progress)
    (hvalue : (sheet.compute cell run).1 = .ok value) :
    Tracked (sheet.compute cell run).2 ∧ (sheet.compute cell run).2.trail = run.trail := by
  have hdenotes := (consistent_compute cell run hconsistent).2 value hvalue
  have hoff := h.off hconsistent ⟨value, hdenotes⟩
  obtain ⟨later, hlater, hsettles, htrail⟩ :=
    compute_settles hdenotes run (hconsistent.clear ⟨value, hdenotes⟩)
  rw [hlater]
  refine ⟨?_, htrail hoff⟩
  intro other hother
  rw [htrail hoff] at hother
  obtain ⟨inside, hstarted⟩ := h other hother
  refine ⟨inside, ?_⟩
  rw [hsettles.mark_eq _ (by rw [address_index]; exact hoff other hother)]
  exact hstarted

theorem Tracked.enter (h : Tracked run) (inside : sheet.Holds cell) :
    Tracked (run.enter (sheet.index cell inside) cell) := by
  intro other hother
  by_cases hsame : other = cell
  · subst hsame
    exact ⟨inside, by simp [Run.enter]⟩
  · obtain ⟨hholds, hstarted⟩ := h other ((Trail.mem_push.1 hother).resolve_left hsame)
    refine ⟨hholds, ?_⟩
    have hne : sheet.index cell inside ≠ sheet.index other hholds :=
      fun hindex => hsame ((index_inj inside hholds).1 hindex).symm
    simpa [Run.enter, hne] using hstarted

/-- The circle that a trail shows is the one among the ancestors. -/
theorem circleAt_eq_circleFrom (htracked : Tracked run) (hfollowing : Following run reference)
    (hlisted : cell ∈ run.trail) :
    sheet.circleAt run cell = sheet.circleFrom run.trail.toList reference cell := by
  obtain ⟨last, hlast⟩ := Trail.exists_last?_of_mem hlisted
  obtain ⟨inside, -⟩ := htracked last (Trail.mem_of_last? hlast)
  have hreference := hfollowing last hlast inside
  simp [circleAt, circleFrom, Trail.circleThrough_eq, hlast, index?, inside,
    hreference, hlisted]

theorem Tracked.follow (h : Tracked run) (place : Fin sheet.size) (text : String) :
    Tracked (run.follow place text) := by
  intro other hother
  obtain ⟨inside, hstarted⟩ := h other hother
  exact ⟨inside, by simpa [Run.follow] using hstarted⟩

theorem following_follow {inside : sheet.Holds cell} (hlast : run.trail.last? = some cell)
    (text : String) : Following (run.follow (sheet.index cell inside) text) text := by
  intro last hother hholds
  obtain rfl : cell = last := Option.some.inj (hlast.symm.trans hother)
  simp [Run.follow]

/-- On a tracked run the answer is the one that is found from the formulas alone. -/
theorem compute_eq_direct (cell : Address) (run : Run sheet) (reference : String)
    (hconsistent : sheet.Consistent run.progress) (htracked : Tracked run)
    (hfollowing : Following run reference) :
    (sheet.compute cell run).1 = sheet.direct run.trail.toList reference cell := by
  induction cell, run using compute_induction generalizing reference with
  | hstep cell run ih =>
      by_cases hvalue : sheet.HasValue cell
      · obtain ⟨value, hdenotes⟩ := hvalue
        obtain ⟨later, hlater, -⟩ :=
          compute_settles hdenotes run (hconsistent.clear ⟨value, hdenotes⟩)
        rw [hlater, direct_of_denotes hdenotes]
        intro other hother
        exact htracked.off hconsistent ⟨value, hdenotes⟩ other (Trail.mem_toList.1 hother)
      · rcases sheet.compute_cases cell run with
          houtside | ⟨inside, ⟨known, hknown⟩ | hguarded | hopen⟩
        · rw [compute_of_not_holds houtside, direct_of_not_holds houtside]
        · exact absurd ⟨known, hconsistent.sound.denotes_index inside hknown⟩ hvalue
        · have hlisted : cell ∈ run.trail := by
            simpa only [address_index] using hguarded.2
          rw [compute_of_guarded inside hguarded,
            direct_of_mem inside (Trail.mem_toList.2 hlisted),
            circleAt_eq_circleFrom htracked hfollowing hlisted]
        · have hnew : cell ∉ run.trail := by
            intro hlisted
            obtain ⟨_, hstarted⟩ := htracked cell hlisted
            exact hopen.free ⟨hstarted, by rwa [address_index]⟩
          rw [compute_answer_of_open hopen,
            direct_of_not_mem inside (fun hlisted => hnew (Trail.mem_toList.1 hlisted))]
          refine (Site.evaluate_agree _
            (R := fun _ later _ => (run.enter (sheet.index cell inside) cell).Leads later ∧
              sheet.Consistent later.progress ∧ Tracked later ∧
              later.trail = run.trail.push cell)
            (E := fun _ _ _ => True) ?_ (fun _ _ _ _ _ _ => trivial)
            ⟨.refl _, hconsistent.enter inside hvalue, htracked.enter inside, rfl⟩).answer
          rintro before text after target later - - - ⟨hleads, hlater, htrack, htrail⟩
          have hfollowed := hlater.follow (sheet.index cell inside) text
          have hlast : later.trail.last? = some cell := by
            rw [htrail, Trail.last?_push hnew]
          have hanswer := ih inside hopen target text later hleads text hfollowed
            (htrack.follow _ text) (following_follow hlast text)
          refine ⟨?_, ?_, fun _ _ => trivial⟩
          · rw [hanswer, ← Trail.toList_push hnew, ← htrail]
            rfl
          · intro value hok
            obtain ⟨hnext, hrestored⟩ := (htrack.follow _ text).compute hfollowed hok
            refine ⟨?_, (consistent_compute target _ hfollowed).1, hnext, hrestored.trans htrail⟩
            exact (hleads.trans (later.leads_follow _ text)).trans (sheet.leads_compute target _)

theorem Consistent.compute_eq_direct {progress : Progress sheet.size}
    (h : sheet.Consistent progress) (cell : Address) (reference : String) :
    (sheet.compute cell ⟨progress, .empty⟩).1 = sheet.direct [] reference cell :=
  Sheet.compute_eq_direct cell ⟨progress, .empty⟩ reference h
    (fun other hother => absurd hother (Trail.not_mem_empty other)) (fun _ hlast => by cases hlast)

/-- Cells evaluated one after the other all succeed if they all have values; else the
first one that has none answers. -/
theorem Consistent.computeEach_answer {progress : Progress sheet.size}
    (h : sheet.Consistent progress) (cells : List Address) (reference : String) :
    ((∀ cell ∈ cells, sheet.HasValue cell) ∧ (sheet.computeEach cells progress).1 = .ok ()) ∨
      ∃ before cell after fault, cells = before ++ cell :: after ∧
        (∀ other ∈ before, sheet.HasValue other) ∧
        sheet.direct [] reference cell = .error fault ∧
        (sheet.computeEach cells progress).1 = .error fault := by
  induction cells generalizing progress with
  | nil => exact Or.inl ⟨by simp, rfl⟩
  | cons cell rest ih =>
      have hdirect := h.compute_eq_direct cell reference
      have hnext := (consistent_compute cell ⟨progress, .empty⟩ h).1
      have hvalue := (consistent_compute cell ⟨progress, .empty⟩ h).2
      rw [Sheet.computeEach]
      generalize sheet.compute cell ⟨progress, .empty⟩ = outcome at *
      obtain ⟨answer, run⟩ := outcome
      cases answer with
      | error fault => exact Or.inr ⟨[], cell, rest, fault, rfl, by simp, hdirect.symm, rfl⟩
      | ok value =>
          have hfirst : sheet.HasValue cell := ⟨value, hvalue value rfl⟩
          rcases ih hnext with
            ⟨hrest, hok⟩ | ⟨before, failing, after, fault, hsplit, hbefore, hfault, herror⟩
          · refine Or.inl ⟨?_, hok⟩
            rintro other (_ | ⟨_, hother⟩)
            · exact hfirst
            · exact hrest other hother
          · refine Or.inr ⟨cell :: before, failing, after, fault, by simp [hsplit], ?_, hfault,
              herror⟩
            rintro other (_ | ⟨_, hother⟩)
            · exact hfirst
            · exact hbefore other hother

/-- After any calls, an evaluation without a trail gives the value or the fault that
follows from the formulas alone, and so the one that it gives at first. -/
theorem compute_afterAll_eq_direct (sheet : Sheet) (calls : List Call) (cell : Address)
    (reference : String) :
    (sheet.compute cell ⟨sheet.afterAll calls, .empty⟩).1 = sheet.direct [] reference cell ∧
      (sheet.compute cell ⟨sheet.afterAll calls, .empty⟩).1 =
        (sheet.compute cell ⟨.fresh _, .empty⟩).1 := by
  have hlater := (sheet.consistent_afterAll calls).compute_eq_direct cell reference
  have hfirst := sheet.consistent_fresh.compute_eq_direct cell reference
  exact ⟨hlater, hlater.trans hfirst.symm⟩

end Sheet

end PostfixSheet
