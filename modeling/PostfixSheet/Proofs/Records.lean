/-
The records of cells between the calls on a sheet.

A cell that has never been entered has followed no reference, and one with its value
has followed all of them, the last one last.  Together with the values that are kept,
this leaves nothing open about the record of any cell but one left behind without a
value.
-/
import PostfixSheet.Proofs.Layout
import PostfixSheet.Proofs.Success

namespace PostfixSheet

namespace Sheet

variable {sheet : Sheet} {cell : Address} {progress : Progress sheet.size} {run : Run sheet}

/-- What is kept of the latest references: none for a cell that has not been entered,
and the last one of its formula for a cell with its value. -/
structure Recorded (sheet : Sheet) (progress : Progress sheet.size) : Prop where
  untouched : ∀ place : Fin sheet.size, progress.mark place = .untouched →
    progress.lastReference place = none
  done : ∀ place : Fin sheet.size, (progress.mark place).isDone = true →
    progress.lastReference place = (sheet.formulas[place]).references.getLast?

theorem recorded_fresh (sheet : Sheet) : sheet.Recorded (.fresh _) where
  untouched := by simp
  done := by
    intro place hdone
    simp [Mark.isDone] at hdone

theorem Recorded.start (h : sheet.Recorded progress) (place : Fin sheet.size) :
    sheet.Recorded (progress.start place) where
  untouched := by
    intro other huntouched
    rw [Progress.mark_start] at huntouched
    split at huntouched
    · cases huntouched
    · rw [Progress.lastReference_start]
      exact h.untouched other huntouched
  done := by
    intro other hdone
    rw [Progress.mark_start] at hdone
    split at hdone
    · cases hdone
    · rw [Progress.lastReference_start]
      exact h.done other hdone

theorem Recorded.follow (h : sheet.Recorded progress) {place : Fin sheet.size}
    (hstarted : progress.mark place = .started) (text : String) :
    sheet.Recorded (progress.follow place text) where
  untouched := by
    intro other huntouched
    rw [Progress.mark_follow] at huntouched
    have hne : place ≠ other := by
      rintro rfl
      cases hstarted.symm.trans huntouched
    rw [Progress.lastReference_follow, if_neg hne]
    exact h.untouched other huntouched
  done := by
    intro other hdone
    rw [Progress.mark_follow] at hdone
    have hne : place ≠ other := by
      rintro rfl
      simp [hstarted, Mark.isDone] at hdone
    rw [Progress.lastReference_follow, if_neg hne]
    exact h.done other hdone

theorem Recorded.finish (h : sheet.Recorded progress) {place : Fin sheet.size}
    (hlast : progress.lastReference place = (sheet.formulas[place]).references.getLast?)
    (value : Float) : sheet.Recorded (progress.finish place value) where
  untouched := by
    intro other huntouched
    rw [Progress.mark_finish] at huntouched
    split at huntouched
    · cases huntouched
    · rw [Progress.lastReference_finish]
      exact h.untouched other huntouched
  done := by
    intro other hdone
    rw [Progress.lastReference_finish]
    by_cases hsame : place = other
    · exact hsame ▸ hlast
    · rw [Progress.mark_finish, if_neg hsame] at hdone
      exact h.done other hdone

/-- The records stay in order when a cell gets its value: it is entered for the first
time, and follows its references in the order in which they are written. -/
theorem Recorded.compute_of_hasValue (hvalue : sheet.HasValue cell) (run : Run sheet)
    (hclear : sheet.Clear cell run.progress) (h : sheet.Recorded run.progress) :
    sheet.Recorded (sheet.compute cell run).2.progress := by
  refine hvalue.compute_induction (motive := fun cell run =>
    sheet.Recorded run.progress → sheet.Recorded (sheet.compute cell run).2.progress)
    ?done ?entered run hclear h
  case done =>
    intro cell run hsame h
    rwa [hsame]
  case entered =>
    intro cell value inside run hdenotes hclear hopen ih h
    have hfirst : run.progress.lastReference (sheet.index cell inside) = none :=
      h.untouched _ (hclear.untouched hopen)
    obtain ⟨last, hlater, -, hrecorded, hlast⟩ := compute_of_settling hdenotes hclear hopen
      (J := fun before current => sheet.Recorded current.progress ∧
        current.progress.lastReference (sheet.index cell inside) = before.getLast?)
      ⟨h.start _, by simp [Run.enter, hfirst]⟩ (by
        rintro before text target current next hrefers hsettling ⟨hcurrent, -⟩ hclear hnext
          hsettles
        refine ⟨hnext ▸ ih target hrefers _ hclear (hcurrent.follow hsettling.entered text), ?_⟩
        rw [hsettles.lastReference_eq]
        · simp [Run.follow]
        · rw [address_index]
          exact hdenotes.not_reaches hrefers)
    rw [hlater]
    exact hrecorded.finish hlast value

theorem Consistent.started_compute (h : sheet.Consistent run.progress)
    {place : Fin sheet.size} (hstarted : run.progress.mark place = .started) (cell : Address) :
    (sheet.compute cell run).2.progress.mark place = .started := by
  have hentered : (sheet.compute cell run).2.progress.mark place ≠ .untouched :=
    mark_ne_untouched_compute (by simp [hstarted]) cell
  cases hmark : (sheet.compute cell run).2.progress.mark place with
  | untouched => exact absurd hmark hentered
  | started => rfl
  | done value =>
      have hdenotes := (consistent_compute cell run h).1.sound.denotes place value hmark
      exact absurd ⟨value, hdenotes⟩ (h.barren place hstarted)

theorem Consistent.done_compute (h : sheet.Consistent run.progress)
    {place : Fin sheet.size} {value : Float} (hdone : run.progress.mark place = .done value)
    (cell : Address) : (sheet.compute cell run).2.progress.mark place = .done value := by
  obtain ⟨other, hother⟩ := Mark.isDone_iff.1
    ((sheet.leads_compute cell run).1 place (Mark.isDone_iff.2 ⟨value, hdone⟩))
  have hlater := (consistent_compute cell run h).1.sound.denotes place other hother
  rw [hother, hlater.unique (h.sound.denotes place value hdone)]

/-- A cell without a value fails whenever it is evaluated. -/
theorem Consistent.exists_error (h : sheet.Consistent run.progress)
    (hnone : ¬sheet.HasValue cell) : ∃ fault, (sheet.compute cell run).1 = .error fault := by
  cases hanswer : (sheet.compute cell run).1 with
  | error fault => exact ⟨fault, rfl⟩
  | ok value => exact absurd ⟨value, (consistent_compute cell run h).2 value hanswer⟩ hnone

theorem Consistent.not_hasValue_of_error (h : sheet.Consistent run.progress)
    {fault : Fault} (hfailed : (sheet.compute cell run).1 = .error fault) :
    ¬sheet.HasValue cell := by
  rintro ⟨value, hdenotes⟩
  obtain ⟨later, hlater, -⟩ := compute_settles hdenotes run (h.clear ⟨value, hdenotes⟩)
  rw [hlater] at hfailed
  cases hfailed

theorem Consistent.computeBody_error (h : sheet.Consistent run.progress)
    {inside : sheet.Holds cell} (hnone : ¬sheet.HasValue cell)
    (hopen : run.Open (sheet.index cell inside)) :
    ∃ fault, (sheet.computeBody cell inside run).1 = .error fault := by
  rw [← compute_answer_of_open hopen]
  exact h.exists_error hnone

/-- Every evaluation leaves the records in order. -/
theorem Recorded.compute (cell : Address) (run : Run sheet)
    (hconsistent : sheet.Consistent run.progress) (h : sheet.Recorded run.progress) :
    sheet.Recorded (sheet.compute cell run).2.progress := by
  induction cell, run using compute_induction with
  | hstep cell run ih =>
      by_cases hvalue : sheet.HasValue cell
      · exact h.compute_of_hasValue hvalue run (hconsistent.clear hvalue)
      · rcases sheet.compute_cases cell run with
          houtside | ⟨inside, ⟨known, hknown⟩ | hguarded | hopen⟩
        · rwa [compute_of_not_holds houtside]
        · rwa [compute_of_done inside hknown]
        · rwa [compute_of_guarded inside hguarded]
        · obtain ⟨fault, hfault⟩ := hconsistent.computeBody_error hvalue hopen
          rw [compute_error_of_open hopen hfault]
          refine ((sheet.site cell inside).evaluate_keeps
            (I := fun _ later => (run.enter (sheet.index cell inside) cell).Leads later ∧
              sheet.Consistent later.progress ∧ sheet.Recorded later.progress ∧
              later.progress.mark (sheet.index cell inside) = .started)
            (E := fun _ later => sheet.Recorded later.progress) ?_
            (fun _ _ _ _ hlater => hlater.2.2.1)
            ⟨.refl _, hconsistent.enter inside hvalue, h.start _, by simp [Run.enter]⟩).2
            fault hfault
          rintro before text after target later - - ⟨hleads, hlater, hrecorded, hstarted⟩
          have hfollowed := hlater.follow (sheet.index cell inside) text
          have hnext := ih inside hopen target text later hleads hfollowed
            (hrecorded.follow hstarted text)
          refine ⟨fun _ _ => ⟨?_, (consistent_compute target _ hfollowed).1, hnext, ?_⟩,
            fun _ _ => hnext⟩
          · exact (hleads.trans (later.leads_follow _ text)).trans (sheet.leads_compute target _)
          · apply hfollowed.started_compute
            rwa [Run.follow, Progress.mark_follow]

/-- Kept values and latest references are in order. -/
structure Regular (sheet : Sheet) (progress : Progress sheet.size) : Prop where
  consistent : sheet.Consistent progress
  recorded : sheet.Recorded progress

theorem regular_fresh (sheet : Sheet) : sheet.Regular (.fresh _) :=
  ⟨sheet.consistent_fresh, sheet.recorded_fresh⟩

theorem Regular.compute (h : sheet.Regular run.progress) (cell : Address) :
    sheet.Regular (sheet.compute cell run).2.progress :=
  ⟨(consistent_compute cell run h.consistent).1, h.recorded.compute cell run h.consistent⟩

theorem regular_afterAll (sheet : Sheet) (calls : List Call) :
    sheet.Regular (sheet.afterAll calls) :=
  foldl_after_keeps (fun cell _ h => h.compute cell) calls sheet.regular_fresh

theorem done_afterAll (sheet : Sheet) (calls more : List Call) {place : Fin sheet.size}
    {value : Float} (hdone : (sheet.afterAll calls).mark place = .done value) :
    (sheet.afterAll (calls ++ more)).mark place = .done value := by
  have hboth := foldl_after_keeps
    (I := fun progress => sheet.Consistent progress ∧ progress.mark place = .done value)
    (fun cell run h => ⟨(consistent_compute cell run h.1).1, h.1.done_compute h.2 cell⟩)
    more ⟨sheet.consistent_afterAll calls, hdone⟩
  rw [afterAll, List.foldl_append]
  exact hboth.2

structure CellRecord where
  cell : Address
  formula : Formula
  entry : Entry

def records (sheet : Sheet) (progress : Progress sheet.size) : List CellRecord :=
  (List.finRange sheet.size).map fun place : Fin sheet.size =>
    { cell := sheet.address place
      formula := sheet.formulas.get place
      entry := progress.entry place }

/-- The records show the cells in their places with their formulas, whatever has been
calculated. -/
theorem records_written {rows cols : Nat} {texts : List String}
    (h : Sheet.ofTexts rows cols texts = .ok sheet) (progress : Progress sheet.size) :
    (sheet.records progress).map (fun record => (record.cell, record.formula.text)) =
      texts.mapIdx fun place text => (addressIn cols place, text) := by
  obtain ⟨-, hcols, hformulas⟩ := of_ofTexts_eq_ok h
  have hlength : sheet.size = texts.length := by
    simpa using congrArg List.length hformulas
  apply List.ext_getElem
  · simp [records, hlength]
  · intro place hplace hplace'
    have hinside : place < sheet.formulas.toList.length := by simpa [records] using hplace
    have htext : place < (texts.map Formula.mk).length := by simpa using hplace'
    have hformula := congrArg (fun formulas => formulas[place]?) hformulas
    simp only [List.getElem?_eq_getElem hinside, List.getElem?_eq_getElem htext,
      Vector.getElem_toList, List.getElem_map, Option.some.injEq] at hformula
    simp only [records, List.getElem_map, List.getElem_finRange, List.getElem_mapIdx, address,
      hcols]
    exact congrArg (fun formula => (addressIn cols place, formula.text)) hformula

/-- The value that is kept of a cell, or zero. -/
def kept (progress : Progress sheet.size) (place : Fin sheet.size) : Float :=
  (progress.value? place).getD 0

/-- A value rests on what is kept: each reference of the formula in this place leads to
a cell that is done, and the formula has the value for theirs. -/
structure Founded (sheet : Sheet) (progress : Progress sheet.size) (place : Fin sheet.size)
    (value : Float) : Prop where
  operands : ∀ text ∈ (sheet.formulas[place]).references,
    ∃ target, ∃ inside : sheet.Holds target,
      Address.locate text sheet.rows sheet.cols = .ok target ∧
      progress.stage (sheet.index target inside) = .done
  evaluated : ((sheet.site (sheet.address place) (sheet.holds_address place)).evaluate
    (.ofValues (sheet.valueAt (kept progress))) ()).1 = .ok value

theorem formula_site_address (place : Fin sheet.size) :
    (sheet.site (sheet.address place) (sheet.holds_address place)).formula =
      sheet.formulas[place] := by
  simp only [site, index_address]

theorem Consistent.founded (h : sheet.Consistent progress) {place : Fin sheet.size}
    {value : Float} (hdone : progress.mark place = .done value) :
    sheet.Founded progress place value where
  operands := by
    intro text htext
    have hdenotes := h.sound.denotes place value hdone
    have hsite := (Site.fault?_eq_none_iff _).1
      (hdenotes.fault?_eq_none (sheet.holds_address place))
    rw [← formula_site_address] at htext
    obtain ⟨target, hlocated⟩ := hsite.2 text htext
    have hrefers := (refers_iff (sheet.holds_address place)).2 ⟨text, htext, hlocated⟩
    have hclosed := h.sound.closed place (sheet.index target hrefers.holds)
      (Mark.isDone_iff.2 ⟨value, hdone⟩) (by rwa [address_index])
    obtain ⟨operand, hoperand⟩ := Mark.isDone_iff.1 hclosed
    exact ⟨target, hrefers.holds, hlocated, (Entry.mark_eq_done_iff.1 hoperand).1⟩
  evaluated := by
    cases h.sound.denotes place value hdone with
    | intro inside values operands evaluated =>
        rw [← evaluated]
        apply evaluate_ofValues_congr inside
        intro target hrefers
        have hclosed := h.sound.closed place (sheet.index target hrefers.holds)
          (Mark.isDone_iff.2 ⟨value, hdone⟩) (by rwa [address_index])
        obtain ⟨operand, hoperand⟩ := Mark.isDone_iff.1 hclosed
        have hvalue : progress.value? (sheet.index target hrefers.holds) = some operand :=
          (Entry.mark_eq_done_iff.1 hoperand).2
        rw [valueAt_eq _ hrefers.holds, kept, hvalue]
        exact (h.sound.denotes_index hrefers.holds hoperand).unique (operands target hrefers)

/-- What holds of the records `now`, and between them and the records `later`. -/
structure InOrder (sheet : Sheet) (now later : Progress sheet.size) : Prop where
  /-- Exactly the cells that are done have a value. -/
  valued : ∀ place, now.stage place = .done ↔ ∃ value, now.value? place = some value
  founded : ∀ place value, now.stage place = .done → now.value? place = some value →
    sheet.Founded now place value
  untouched : ∀ place, now.stage place = .untouched → now.lastReference place = none
  done : ∀ place : Fin sheet.size, now.stage place = .done →
    now.lastReference place = (sheet.formulas[place]).references.getLast?
  /-- What is done is not changed again. -/
  lasting : ∀ place, now.stage place = .done →
    later.stage place = .done ∧ later.value? place = now.value? place ∧
      later.lastReference place = now.lastReference place
  /-- What has been left behind without a value is never done. -/
  barren : ∀ place, now.stage place = .started → later.stage place ≠ .done

/-- After any calls, the cells of a sheet have the places and formulas that they were
given, values rest on values, and the records of cells with their values are final, as
is the failure of the cells that were entered without finding one. -/
theorem records_inOrder {rows cols : Nat} {texts : List String}
    (hbuilt : Sheet.ofTexts rows cols texts = .ok sheet) (calls more : List Call) :
    (sheet.rows = rows ∧ sheet.cols = cols ∧
      (sheet.records (sheet.afterAll calls)).map
          (fun record => (record.cell, record.formula.text)) =
        texts.mapIdx fun place text => (⟨place / cols, place % cols⟩, text)) ∧
      sheet.InOrder (sheet.afterAll calls) (sheet.afterAll (calls ++ more)) := by
  obtain ⟨hconsistent, hrecorded⟩ := sheet.regular_afterAll calls
  obtain ⟨hlater, hlaterRecorded⟩ := sheet.regular_afterAll (calls ++ more)
  obtain ⟨hrows, hcols, -⟩ := of_ofTexts_eq_ok hbuilt
  refine ⟨⟨hrows, hcols, records_written hbuilt _⟩, ?_⟩
  have hagreeing := sheet.agreeing_afterAll calls
  constructor
  case valued => exact fun place => (hagreeing place).trans Option.isSome_iff_exists
  case founded =>
    exact fun place value hstage hvalue =>
      hconsistent.founded (Entry.mark_eq_done_iff.2 ⟨hstage, hvalue⟩)
  case untouched =>
    exact fun place hstage =>
      hrecorded.untouched place ((hagreeing place).mark_eq_untouched_iff.2 hstage)
  case done =>
    exact fun place hstage => hrecorded.done place ((hagreeing place).isDone_mark_iff.2 hstage)
  case lasting =>
    intro place hstage
    have hdone := (hagreeing place).isDone_mark_iff.2 hstage
    obtain ⟨value, hmark⟩ := Mark.isDone_iff.1 hdone
    have hsame := sheet.done_afterAll calls more hmark
    obtain ⟨hlaterStage, hlaterValue⟩ := Entry.mark_eq_done_iff.1 hsame
    refine ⟨hlaterStage, hlaterValue.trans (Entry.mark_eq_done_iff.1 hmark).2.symm, ?_⟩
    rw [hrecorded.done place hdone,
      hlaterRecorded.done place (Mark.isDone_iff.2 ⟨value, hsame⟩)]
  case barren =>
    intro place hstage hdone
    have hlaterDone := (sheet.agreeing_afterAll (calls ++ more) place).isDone_mark_iff.2 hdone
    obtain ⟨value, hmark⟩ := Mark.isDone_iff.1 hlaterDone
    exact hconsistent.barren place (Entry.mark_eq_started_iff.2 hstage)
      ⟨value, hlater.sound.denotes place value hmark⟩

namespace RecordsWitness

def texts : List String := ["A2 A2 +", "5 ++", "A2 A4 *", "A1 A3 -"]

/-- Two cells with values, and two that refer to each other. -/
def knot : Sheet where
  rows := 1
  cols := 4
  formulas := #v[⟨"A2 A2 +"⟩, ⟨"5 ++"⟩, ⟨"A2 A4 *"⟩, ⟨"A1 A3 -"⟩]
  rows_pos := Nat.one_pos
  cols_pos := by decide
  rows_le := by decide
  size_le := by decide
  not_blank := by decide

/-- A trail with a cell that is not in the sheet and one that has not been entered. -/
def strayTrail : Trail := (Trail.empty.push ⟨7, 7⟩).push ⟨0, 2⟩

/-- After a failure on a stray trail, the records are in order with those after the
whole sheet has been calculated on top. -/
theorem records_inOrder_knot :
    Sheet.ofTexts 1 4 texts = .ok knot ∧
      (knot.afterAll [.cell ⟨0, 3⟩ strayTrail]).entries.toList =
        [⟨.done, some 12.0, some "A2"⟩, ⟨.done, some 6.0, none⟩, ⟨.started, none, some "A4"⟩,
          ⟨.started, none, some "A3"⟩] ∧
      (knot.rows = 1 ∧ knot.cols = 4 ∧
        (knot.records (knot.afterAll [.cell ⟨0, 3⟩ strayTrail])).map
            (fun record => (record.cell, record.formula.text)) =
          texts.mapIdx fun place text => (⟨place / 4, place % 4⟩, text)) ∧
      knot.InOrder (knot.afterAll [.cell ⟨0, 3⟩ strayTrail])
        (knot.afterAll ([.cell ⟨0, 3⟩ strayTrail] ++ [.all, .cell ⟨0, 2⟩ .empty])) := by
  have hbuilt : Sheet.ofTexts 1 4 texts = .ok knot := by rfl
  exact ⟨hbuilt, by decide +kernel, records_inOrder hbuilt _ _⟩

end RecordsWitness

end Sheet

end PostfixSheet
