/-
Calculations that fail.

The first cell without a value, row by row, answers for the whole sheet, with the fault
that it has by itself.  The cells before it get their values.  Another calculation at once
goes no other way: only the cells between that cell and the one at fault are run again.
-/
import PostfixSheet.Proofs.Retry

namespace PostfixSheet

theorem mapM_eq_none {α β : Type} {f : α → Option β} {xs : List α} {x : α} (hmem : x ∈ xs)
    (hnone : f x = none) : xs.mapM f = none := by
  induction xs with
  | nil => cases hmem
  | cons y ys ih =>
      rw [List.mapM_cons]
      rcases List.mem_cons.1 hmem with rfl | hrest
      · rw [hnone]
        rfl
      · rw [ih hrest]
        cases f y <;> rfl

theorem Progress.values?_eq_none {size : Nat} {progress : Progress size} {place : Fin size}
    (h : (progress.mark place).isDone = false) : progress.values? = none := by
  have hmem : progress.entries[place] ∈ progress.entries.toList := by simp
  apply mapM_eq_none hmem
  change (progress.mark place).value? = none
  cases hmark : progress.mark place with
  | done value => simp [hmark, Mark.isDone] at h
  | untouched | started => rfl

namespace Sheet

variable {sheet : Sheet} {cell target : Address} {text : String} {fault : Fault}
  {progress later : Progress sheet.size} {run : Run sheet} {cells before chain : List Address}

theorem computeEach_cons_of_ok {value : Float} (hfirst : sheet.compute cell ⟨progress, .empty⟩ =
    (.ok value, run)) (rest : List Address) :
    sheet.computeEach (cell :: rest) progress = sheet.computeEach rest run.progress := by
  rw [computeEach, hfirst]

theorem computeEach_cons_of_error (hfirst : sheet.compute cell ⟨progress, .empty⟩ =
    (.error fault, run)) (rest : List Address) :
    sheet.computeEach (cell :: rest) progress = (.error fault, run.progress) := by
  rw [computeEach, hfirst]

theorem computeEach_append (hok : (sheet.computeEach before progress).1 = .ok ())
    (rest : List Address) :
    sheet.computeEach (before ++ rest) progress =
      sheet.computeEach rest (sheet.computeEach before progress).2 := by
  induction before generalizing progress with
  | nil => rfl
  | cons first others ih =>
      rcases hfirst : sheet.compute first ⟨progress, .empty⟩ with ⟨fault | value, next⟩
      · rw [computeEach_cons_of_error hfirst] at hok
        cases hok
      · rw [computeEach_cons_of_ok hfirst] at hok
        rw [List.cons_append, computeEach_cons_of_ok hfirst, computeEach_cons_of_ok hfirst]
        exact ih hok

/-- A calculation fails at one cell, after all cells before it have got their values. -/
theorem computeEach_eq_error
    (hfailed : sheet.computeEach cells progress = (.error fault, later)) :
    ∃ before cell after run, cells = before ++ cell :: after ∧
      (sheet.computeEach before progress).1 = .ok () ∧
      sheet.compute cell ⟨(sheet.computeEach before progress).2, .empty⟩ = (.error fault, run) ∧
      later = run.progress := by
  induction cells generalizing progress with
  | nil => cases hfailed
  | cons first rest ih =>
      rcases hfirst : sheet.compute first ⟨progress, .empty⟩ with ⟨reason | value, next⟩
      · rw [computeEach_cons_of_error hfirst] at hfailed
        cases hfailed
        exact ⟨[], first, rest, next, rfl, rfl, hfirst, rfl⟩
      · rw [computeEach_cons_of_ok hfirst] at hfailed
        obtain ⟨before, cell, after, run, rfl, hok, hcell, hlater⟩ := ih hfailed
        refine ⟨first :: before, cell, after, run, rfl, ?_, ?_, hlater⟩
        · rw [computeEach_cons_of_ok hfirst, hok]
        · rw [computeEach_cons_of_ok hfirst, hcell]

theorem computeEach_of_done (h : ∀ cell ∈ cells, ∃ inside : sheet.Holds cell,
    (progress.mark (sheet.index cell inside)).isDone = true) :
    sheet.computeEach cells progress = (.ok (), progress) := by
  induction cells with
  | nil => rfl
  | cons first rest ih =>
      obtain ⟨inside, hdone⟩ := h first List.mem_cons_self
      obtain ⟨value, hvalue⟩ := Mark.isDone_iff.1 hdone
      have hfirst : sheet.compute first ⟨progress, .empty⟩ = (.ok value, ⟨progress, .empty⟩) :=
        compute_of_done inside hvalue
      rw [computeEach_cons_of_ok hfirst]
      exact ih fun cell hcell => h cell (List.mem_cons_of_mem first hcell)

theorem StopsAt.unique {other : Address} {text' : String} (h : sheet.StopsAt cell text target)
    (h' : sheet.StopsAt cell text' other) : target = other := by
  obtain ⟨formula, before, after, hformula, hsplit, hlocated, hbefore, hnone⟩ := h
  obtain ⟨formula', before', after', hformula', hsplit', hlocated', hbefore', hnone'⟩ := h'
  obtain rfl : formula = formula' := Option.some.inj (hformula.symm.trans hformula')
  rcases List.append_eq_append_iff.1 (hsplit.symm.trans hsplit') with
    ⟨_ | ⟨first, more⟩, hlonger, hrest⟩ | ⟨_ | ⟨first, more⟩, hlonger, hrest⟩
  · cases hrest
    exact Except.ok.inj (hlocated.symm.trans hlocated')
  · cases hrest
    obtain ⟨found, hfound, hvalue⟩ := hbefore' text (by simp [hlonger])
    obtain rfl : target = found := Except.ok.inj (hlocated.symm.trans hfound)
    exact absurd hvalue hnone
  · cases hrest
    exact Except.ok.inj (hlocated.symm.trans hlocated')
  · cases hrest
    obtain ⟨found, hfound, hvalue⟩ := hbefore text' (by simp [hlonger])
    obtain rfl : other = found := Except.ok.inj (hlocated'.symm.trans hfound)
    exact absurd hvalue hnone'

/-- The way from a cell down to the one at fault: from each cell to the first one that it
refers to and that has no value. -/
structure FailingChain (sheet : Sheet) (cell : Address) (fault : Fault)
    (chain : List Address) : Prop where
  starts : chain.head? = some cell
  ends : chain.getLast? = some fault.cell
  nodup : chain.Nodup
  linked : chain.IsChain fun source target => ∃ text, sheet.StopsAt source text target

/-- There is only one way down. -/
theorem FailingChain.unique {other : List Address} (h : sheet.FailingChain cell fault chain)
    (h' : sheet.FailingChain cell fault other) : chain = other := by
  induction chain generalizing cell other with
  | nil => cases h.starts
  | cons first rest ih =>
      obtain ⟨hstarts, hends, hnodup, hlinked⟩ := h
      obtain ⟨hstarts', hends', hnodup', hlinked'⟩ := h'
      obtain rfl : first = cell := Option.some.inj hstarts
      rcases other with _ | ⟨first', rest'⟩
      · cases hstarts'
      · obtain rfl : first' = first := Option.some.inj hstarts'
        rcases rest with _ | ⟨next, rest⟩ <;> rcases rest' with _ | ⟨next', rest'⟩
        · rfl
        · -- the cell at fault is the first one, and cannot come again
          obtain rfl : first' = fault.cell := Option.some.inj hends
          rw [List.getLast?_cons_cons] at hends'
          exact absurd (List.mem_of_getLast? hends') (List.nodup_cons.1 hnodup').1
        · obtain rfl : first' = fault.cell := Option.some.inj hends'
          rw [List.getLast?_cons_cons] at hends
          exact absurd (List.mem_of_getLast? hends) (List.nodup_cons.1 hnodup).1
        · rw [List.isChain_cons_cons] at hlinked hlinked'
          obtain ⟨⟨text, hstops⟩, hlinked⟩ := hlinked
          obtain ⟨⟨text', hstops'⟩, hlinked'⟩ := hlinked'
          obtain rfl := hstops.unique hstops'
          rw [List.getLast?_cons_cons] at hends hends'
          rw [ih ⟨rfl, hends, (List.nodup_cons.1 hnodup).2, hlinked⟩
            ⟨rfl, hends', (List.nodup_cons.1 hnodup').2, hlinked'⟩]

/-- A failed evaluation without a trail leaves the failing chain on the trail, and its
formulas are what has been run in vain. -/
theorem exists_failingChain (inside : sheet.Holds cell) (hregular : sheet.Regular progress)
    (hfailed : sheet.compute cell ⟨progress, .empty⟩ = (.error fault, run)) :
    ∃ chain, sheet.FailingChain cell fault chain ∧
      run.workload = (⟨progress, .empty⟩ : Run sheet).workload + chain.length := by
  obtain ⟨chain, hstranded, hlast, hhead⟩ :=
    compute_stranded inside hregular (entered_empty progress) fault (congrArg Prod.fst hfailed)
  rw [hfailed] at hstranded hlast
  have hstarts := hhead.resolve_right fun hnone => Trail.not_mem_empty cell hnone.2
  refine ⟨chain, ⟨hstarts, ?_, hstranded.nodup, ?_⟩, hstranded.workload⟩
  · exact (hstranded.getLast?_eq hstarts).trans hlast
  · exact hstranded.linked.imp fun source target ⟨text, hstops, _⟩ => ⟨text, hstops⟩

/-- A cell that has failed fails again in the same way, with the same records.  The formulas
on the failing chain are run once more, and no others. -/
theorem compute_again (inside : sheet.Holds cell) (hregular : sheet.Regular progress)
    (hfailed : sheet.compute cell ⟨progress, .empty⟩ = (.error fault, run)) :
    ∃ again chain, sheet.compute cell ⟨run.progress, .empty⟩ = (.error fault, again) ∧
      Alike again.progress run.progress ∧ sheet.FailingChain cell fault chain ∧
      again.progress.evaluations = run.progress.evaluations + chain.length := by
  have hlater : sheet.Regular (sheet.compute cell ⟨progress, .empty⟩).2.progress :=
    Regular.compute hregular cell
  have hrepeats := repeats_compute cell ⟨progress, .empty⟩ hregular
    (entered_empty progress) fault (congrArg Prod.fst hfailed)
    ⟨run.progress, .empty⟩ rfl
  rw [hfailed] at hlater hrepeats
  have halike := hrepeats ⟨fun _ => rfl, fun _ => rfl⟩
  have hanswer : (sheet.compute cell ⟨run.progress, .empty⟩).1 = .error fault := by
    rw [hlater.consistent.compute_eq_direct cell "",
      ← hregular.consistent.compute_eq_direct cell "", hfailed]
  rcases hagain : sheet.compute cell ⟨run.progress, .empty⟩ with ⟨answer, again⟩
  rw [hagain] at halike hanswer
  obtain rfl : answer = .error fault := hanswer
  obtain ⟨chain, hchain, hworkload⟩ := exists_failingChain inside hlater hagain
  refine ⟨again, chain, rfl, halike, hchain, ?_⟩
  have hpending : again.pendingCount = (⟨run.progress, .empty⟩ : Run sheet).pendingCount :=
    Run.pendingCount_congr fun place => by simp only [Run.Done, halike.mark]
  rw [Run.workload, Run.workload, hpending] at hworkload
  exact Nat.add_right_cancel (hworkload.trans (Nat.add_right_comm ..))

theorem done_of_before (hbefore : (sheet.computeEach before progress).1 = .ok ())
    (hcell : sheet.compute cell ⟨(sheet.computeEach before progress).2, .empty⟩ =
      (.error fault, run)) {other : Address} (hother : other ∈ before)
    (inside : sheet.Holds other) :
    (run.progress.mark (sheet.index other inside)).isDone = true := by
  have hleads := sheet.leads_compute cell ⟨(sheet.computeEach before progress).2, .empty⟩
  rw [hcell] at hleads
  refine hleads.1 _ (done_of_computeEach_eq_ok hbefore _ (Or.inr ?_))
  rwa [address_index]

/-- While a cell that has no value is in the sheet, the values of the sheet are never all
there. -/
theorem values?_afterAll_eq_none (inside : sheet.Holds cell) (hnone : ¬sheet.HasValue cell)
    (calls : List Call) : (sheet.afterAll calls).values? = none := by
  suffices hpending : ((sheet.afterAll calls).mark (sheet.index cell inside)).isDone = false from
    Progress.values?_eq_none hpending
  cases hmark : (sheet.afterAll calls).mark (sheet.index cell inside) with
  | untouched | started => rfl
  | done value =>
      have hdenotes := (sheet.consistent_afterAll calls).sound.denotes_index inside hmark
      exact absurd ⟨value, hdenotes⟩ hnone

/-- A failed calculation reports the fault of the first cell, row by row, that has one,
after the cells before it have got their values; the values of the sheet are not there, and
will not be.  The next calculation fails in the same way and changes no record; it runs
the formulas on the failing chain. -/
theorem computeAll_eq_error (calls : List Call)
    (hfailed : sheet.computeAll (sheet.afterAll calls) = (.error fault, later)) :
    ∃ before cell after, sheet.addresses = before ++ cell :: after ∧
      (sheet.compute cell ⟨.fresh _, .empty⟩).1 = .error fault ∧
      (∀ other ∈ before, ∃ value, (sheet.compute other ⟨.fresh _, .empty⟩).1 = .ok value ∧
        ∃ inside : sheet.Holds other, later.mark (sheet.index other inside) = .done value) ∧
      (∀ more, (sheet.afterAll (calls ++ .all :: more)).values? = none) ∧
      ∃ again, sheet.computeAll later = (.error fault, again) ∧ again.entries = later.entries ∧
        ∃ chain, sheet.FailingChain cell fault chain ∧
          (∀ other, sheet.FailingChain cell fault other → other = chain) ∧
          again.evaluations = later.evaluations + chain.length := by
  obtain ⟨before, cell, after, run, hsplit, hok, hcell, rfl⟩ := computeEach_eq_error hfailed
  have hregular : sheet.Regular (sheet.computeEach before (sheet.afterAll calls)).2 :=
    computeEach_keeps (fun cell _ h => h.compute cell) before (sheet.regular_afterAll calls)
  have hholds : ∀ other ∈ before ++ cell :: after, sheet.Holds other := fun other hother =>
    holds_of_mem_addresses (hsplit ▸ hother)
  have inside : sheet.Holds cell := hholds cell (List.mem_append_cons_self ..)
  have hinside : ∀ other ∈ before, sheet.Holds other := fun other hother =>
    hholds other (List.mem_append_left _ hother)
  have hanswer : (sheet.compute cell ⟨.fresh _, .empty⟩).1 = .error fault := by
    rw [sheet.consistent_fresh.compute_eq_direct cell "",
      ← hregular.consistent.compute_eq_direct cell "", hcell]
  refine ⟨before, cell, after, hsplit, hanswer, ?_, ?_, ?_⟩
  · intro other hother
    obtain ⟨value, hvalue⟩ :=
      Mark.isDone_iff.1 (done_of_before hok hcell hother (hinside other hother))
    have hlater : sheet.Consistent (sheet.compute cell ⟨_, .empty⟩).2.progress :=
      (Regular.compute hregular cell).consistent
    rw [hcell] at hlater
    have hdenotes := hlater.sound.denotes_index (hinside other hother) hvalue
    exact ⟨value, (sheet.consistent_fresh.compute_eq_ok_iff .empty).2 hdenotes,
      hinside other hother, hvalue⟩
  · exact fun more => values?_afterAll_eq_none inside
      (sheet.consistent_fresh.not_hasValue_of_error hanswer) _
  · obtain ⟨again, chain, hagain, halike, hchain, hevaluations⟩ :=
      compute_again inside hregular hcell
    have hpassed : sheet.computeEach before run.progress = (.ok (), run.progress) :=
      computeEach_of_done fun other hother =>
        ⟨hinside other hother, done_of_before hok hcell hother (hinside other hother)⟩
    have hrepeated : sheet.computeAll run.progress = (.error fault, again.progress) := by
      rw [computeAll, hsplit, computeEach_append (congrArg Prod.fst hpassed), hpassed]
      exact computeEach_cons_of_error hagain after
    have hagreeing := agreeing_computeAll (sheet.agreeing_afterAll calls)
    rw [hfailed] at hagreeing
    have hagreeing' := agreeing_computeAll hagreeing
    rw [hrepeated] at hagreeing'
    exact ⟨again.progress, hrepeated,
      hagreeing'.entries_eq hagreeing halike.mark halike.lastReference, chain, hchain,
      fun other hother => hother.unique hchain, hevaluations⟩

namespace FailureWitness

open RecordsWitness (knot strayTrail)

/-- The last cell of the row refers back to the one before it. -/
def knotCircle : Circle where
  trigger := ⟨0, 3⟩
  triggerText := "A1 A3 -"
  reference := "A3"
  revisited := ⟨0, 2⟩
  revisitedText := "A2 A4 *"
  chain := [⟨0, 2⟩, ⟨0, 3⟩, ⟨0, 2⟩]

/-- A failure on a stray trail comes before the calculation. -/
def calls : List Call := [.cell ⟨0, 3⟩ strayTrail]

def failed : Progress knot.size := (knot.computeAll (knot.afterAll calls)).2

/-- The calculation fails at the third cell, though the call before has left it and the
fourth one started; the next calculation runs these two once more. -/
theorem computeAll_eq_error_knot :
    knot.computeAll (knot.afterAll calls) = (.error (.circular knotCircle), failed) ∧
      failed.entries.toList.map Entry.stage = [.done, .done, .started, .started] ∧
      (∀ more, (knot.afterAll (calls ++ .all :: more)).values? = none) ∧
      ∃ again, knot.computeAll failed = (.error (.circular knotCircle), again) ∧
        again.entries = failed.entries ∧ again.evaluations = failed.evaluations + 2 := by
  have hfailed : knot.computeAll (knot.afterAll calls) =
      (.error (.circular knotCircle), failed) :=
    Prod.ext (by decide +kernel) rfl
  obtain ⟨-, -, -, -, -, -, hvalues, again, hagain, hsame, -⟩ := computeAll_eq_error calls hfailed
  have hevaluations : (knot.computeAll failed).2.evaluations = failed.evaluations + 2 := by
    decide +kernel
  rw [hagain] at hevaluations
  exact ⟨hfailed, by decide +kernel, hvalues, again, hagain, hsame, hevaluations⟩

end FailureWitness

end Sheet

end PostfixSheet
