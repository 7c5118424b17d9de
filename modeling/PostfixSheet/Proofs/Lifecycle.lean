/-
Documents under use.

A document may be calculated as a whole, its sheet may be calculated behind its back, whole
or cell by cell, and its values may be written, in any order and with failures in between.
It counts as calculated from its first calculation that succeeds, and nothing changes in it
from then on.
-/
import PostfixSheet.Document
import PostfixSheet.Proofs.Writing

namespace PostfixSheet

namespace Sheet

variable {sheet : Sheet} {progress other : Progress sheet.size}

theorem Consistent.after (h : sheet.Consistent progress) (call : Call) :
    sheet.Consistent (sheet.after progress call) :=
  foldl_after_keeps (fun cell run hrun => (consistent_compute cell run hrun).1) [call] h

theorem complete_after (h : progress.Complete) (call : Call) :
    (sheet.after progress call).Complete :=
  foldl_after_keeps (I := Progress.Complete)
    (fun cell run hrun place => (sheet.leads_compute cell run).1 place (hrun place)) [call] h

/-- What cells answer does not depend on what has been calculated before. -/
theorem Consistent.computeEach_congr (h : sheet.Consistent progress)
    (hother : sheet.Consistent other) (cells : List Address) :
    (sheet.computeEach cells progress).1 = (sheet.computeEach cells other).1 := by
  induction cells generalizing progress other with
  | nil => rfl
  | cons cell rest ih =>
      have hsame : (sheet.compute cell ⟨progress, .empty⟩).1 =
          (sheet.compute cell ⟨other, .empty⟩).1 := by
        rw [h.compute_eq_direct cell "", hother.compute_eq_direct cell ""]
      have hnext := (consistent_compute cell ⟨progress, .empty⟩ h).1
      have hnext' := (consistent_compute cell ⟨other, .empty⟩ hother).1
      rcases hfirst : sheet.compute cell ⟨progress, .empty⟩ with ⟨answer, run⟩
      rcases hfirst' : sheet.compute cell ⟨other, .empty⟩ with ⟨answer', run'⟩
      rw [hfirst] at hsame hnext
      rw [hfirst'] at hsame hnext'
      obtain rfl : answer = answer' := hsame
      cases answer with
      | error fault =>
          rw [computeEach_cons_of_error hfirst, computeEach_cons_of_error hfirst']
      | ok value =>
          rw [computeEach_cons_of_ok hfirst, computeEach_cons_of_ok hfirst']
          exact ih hnext hnext'

/-- The values of a sheet have one text, whenever they are all there. -/
theorem exists_text (sheet : Sheet) {places : Nat} (hplaces : places ≤ Decimal.maxPlaces) :
    ∃ text, ∀ progress, sheet.Consistent progress → progress.Complete →
      Results.write sheet progress places .unbounded = (.ok (), ⟨none, text⟩) := by
  by_cases hexists : ∃ progress, sheet.Consistent progress ∧ progress.Complete
  · obtain ⟨progress, hconsistent, hcomplete⟩ := hexists
    obtain ⟨values, lines, hvalues, hlines⟩ := Results.exists_lines hcomplete hplaces
    refine ⟨_, fun other hother hcomplete' => Results.write_of_values ?_ hlines⟩
    intro place
    obtain ⟨value, hvalue⟩ := Mark.isDone_iff.1 (hcomplete' place)
    rw [hvalue, (hother.sound.denotes place value hvalue).unique
      (hconsistent.sound.denotes place _ (hvalues place))]
  · exact ⟨"", fun progress hconsistent hcomplete =>
      absurd ⟨progress, hconsistent, hcomplete⟩ hexists⟩

end Sheet

namespace Document

inductive Operation where
  | calculate
  | isCalculated
  | write (places : Nat) (sink : Sink)
  /-- The cells of the sheet are evaluated as if there were no document. -/
  | computeSheet
  /-- One cell is evaluated on top of a trail. -/
  | compute (cell : Address) (trail : Trail)

def after (document : Document) : Operation → Document
  | .calculate => document.calculate.2
  | .isCalculated => document
  | .write _ _ => document
  | .computeSheet => document.computeSheet.2
  | .compute cell trail => (document.compute cell trail).2.2

def afterAll (document : Document) (operations : List Operation) : Document :=
  operations.foldl after document

/-- Documents as they are made: read from somewhere, or about a sheet that has been read. -/
inductive Made : Document → Prop
  | loaded {source : Option String} {content : Except FileFault (List UInt8)}
      {document : Document} : load source content = .ok document → Made document
  | given {bytes : List UInt8} {sheet : Sheet} (source : Option String) :
      SheetText.read bytes = .ok sheet → Made (ofSheet sheet source)

variable {document : Document} {operation : Operation} {operations : List Operation}

theorem load_eq (source : Option String) (content : Except FileFault (List UInt8)) :
    load source content =
      (content.mapError (fun fault => .io (.file fault)) >>= SheetText.read).map
        fun sheet => ofSheet sheet source := by
  cases content <;> rfl

/-- Nothing of a new document is calculated. -/
theorem Made.exists_eq_ofSheet (h : document.Made) :
    ∃ sheet source, document = .ofSheet sheet source := by
  cases h with
  | given source _ => exact ⟨_, source, rfl⟩
  | @loaded source content _ hload =>
      rw [load_eq] at hload
      cases hread : content.mapError (fun fault => Problem.io (.file fault)) >>= SheetText.read with
      | error problem =>
          rw [hread] at hload
          cases hload
      | ok sheet =>
          rw [hread] at hload
          cases hload
          exact ⟨sheet, source, rfl⟩

/-- The values that are there are right, and all of them are there once the document counts
as calculated. -/
structure Steady (document : Document) : Prop where
  consistent : document.sheet.Consistent document.progress
  complete : document.calculated = true → document.progress.Complete

theorem Made.steady (h : document.Made) : document.Steady := by
  obtain ⟨sheet, source, rfl⟩ := h.exists_eq_ofSheet
  exact ⟨sheet.consistent_fresh, fun hfalse => by cases hfalse⟩

theorem calculate_of_calculated (h : document.calculated = true) :
    document.calculate = (.ok (), document) :=
  if_pos h

section Calculate

variable {sheet : Sheet} {progress later : Progress sheet.size} {source : Option String}
  {fault : Fault}

theorem calculate_of_ok (h : sheet.computeAll progress = (.ok (), later)) :
    calculate ⟨sheet, progress, source, false⟩ = (.ok (), ⟨sheet, later, source, true⟩) := by
  simp [calculate, computeSheet, h]

theorem calculate_of_error (h : sheet.computeAll progress = (.error fault, later)) :
    calculate ⟨sheet, progress, source, false⟩ =
      (.error fault, ⟨sheet, later, source, false⟩) := by
  simp [calculate, computeSheet, h]

end Calculate

/-- An operation makes at most one call on the sheet.  The document counts as calculated
afterwards only if it did before or all values have come to be there. -/
theorem after_eq (document : Document) (operation : Operation) :
    ∃ progress calculated,
      document.after operation = ⟨document.sheet, progress, document.source, calculated⟩ ∧
      (progress = document.progress ∨
        ∃ call, progress = document.sheet.after document.progress call) ∧
      (calculated = true → document.calculated = true ∨ progress.Complete) := by
  obtain ⟨sheet, progress, source, calculated⟩ := document
  cases operation with
  | isCalculated | write places sink => exact ⟨progress, calculated, rfl, Or.inl rfl, Or.inl⟩
  | computeSheet => exact ⟨_, calculated, rfl, Or.inr ⟨.all, rfl⟩, Or.inl⟩
  | compute cell trail => exact ⟨_, calculated, rfl, Or.inr ⟨.cell cell trail, rfl⟩, Or.inl⟩
  | calculate =>
      cases calculated with
      | true => exact ⟨progress, true, rfl, Or.inl rfl, Or.inl⟩
      | false =>
          rcases hcomputed : sheet.computeAll progress with ⟨fault | ⟨⟩, later⟩
          · exact ⟨later, false, congrArg Prod.snd (calculate_of_error hcomputed),
              Or.inr ⟨.all, (congrArg Prod.snd hcomputed).symm⟩, Or.inl⟩
          · exact ⟨later, true, congrArg Prod.snd (calculate_of_ok hcomputed),
              Or.inr ⟨.all, (congrArg Prod.snd hcomputed).symm⟩,
              fun _ => Or.inr (Sheet.complete_of_computeAll_eq hcomputed)⟩

theorem sheet_after (document : Document) (operation : Operation) :
    (document.after operation).sheet = document.sheet := by
  obtain ⟨progress, calculated, hafter, -⟩ := document.after_eq operation
  rw [hafter]

theorem Steady.after (h : document.Steady) (operation : Operation) :
    (document.after operation).Steady := by
  obtain ⟨progress, calculated, hafter, hcalled, hcalculated⟩ := document.after_eq operation
  rw [hafter]
  constructor
  case consistent =>
    rcases hcalled with rfl | ⟨call, rfl⟩
    · exact h.consistent
    · exact h.consistent.after call
  case complete =>
    intro hnow
    rcases hcalculated hnow with hbefore | hcomplete
    · rcases hcalled with rfl | ⟨call, rfl⟩
      · exact h.complete hbefore
      · exact Sheet.complete_after (h.complete hbefore) call
    · exact hcomplete

/-- A document comes to count as calculated by a calculation that succeeds, and by nothing
else. -/
theorem calculated_after (document : Document) (operation : Operation) :
    (document.after operation).calculated = true ↔
      document.calculated = true ∨ (operation = .calculate ∧ document.calculate.1 = .ok ()) := by
  obtain ⟨sheet, progress, source, calculated⟩ := document
  cases operation with
  | calculate =>
      cases calculated with
      | true => simp [after, calculate]
      | false =>
          rcases hcomputed : sheet.computeAll progress with ⟨fault | ⟨⟩, later⟩
          · simp [after, calculate_of_error hcomputed]
          · simp [after, calculate_of_ok hcomputed]
  | _ => simp [after, computeSheet, compute]

theorem afterAll_append (document : Document) (operations more : List Operation) :
    document.afterAll (operations ++ more) = (document.afterAll operations).afterAll more :=
  List.foldl_append

theorem Steady.afterAll (h : document.Steady) (operations : List Operation) :
    (document.afterAll operations).Steady := by
  induction operations generalizing document with
  | nil => exact h
  | cons operation rest ih => exact ih (h.after operation)

theorem sheet_afterAll (document : Document) (operations : List Operation) :
    (document.afterAll operations).sheet = document.sheet := by
  induction operations generalizing document with
  | nil => rfl
  | cons operation rest ih =>
      exact (ih (document.after operation)).trans (document.sheet_after operation)

/-- A document that counts as calculated has come to it by a calculation. -/
theorem calculated_afterAll (document : Document) (operations : List Operation) :
    (document.afterAll operations).calculated = true ↔
      document.calculated = true ∨ ∃ before, before ++ [.calculate] <+: operations ∧
        (document.afterAll before).calculate.1 = .ok () := by
  -- from the end: the last operation is the one that counts, or an earlier one is
  induction operations using List.reverseRecOn with
  | nil => simp [afterAll]
  | append_singleton earlier operation ih =>
      have hlast : document.afterAll (earlier ++ [operation]) =
          (document.afterAll earlier).after operation :=
        document.afterAll_append earlier [operation]
      rw [hlast, calculated_after, ih]
      simp only [List.prefix_concat_iff]
      constructor
      · rintro ((hcalculated | ⟨before, hbefore, hok⟩) | ⟨rfl, hok⟩)
        · exact Or.inl hcalculated
        · exact Or.inr ⟨before, Or.inr hbefore, hok⟩
        · exact Or.inr ⟨earlier, Or.inl rfl, hok⟩
      · rintro (hcalculated | ⟨before, hlast | hbefore, hok⟩)
        · exact Or.inl (Or.inl hcalculated)
        · obtain ⟨rfl, hsame⟩ := List.append_inj' hlast rfl
          exact Or.inr ⟨(List.singleton_inj.1 hsame).symm, hok⟩
        · exact Or.inl (Or.inr ⟨before, hbefore, hok⟩)

/-- Every calculation of a document has the same answer, at whatever time. -/
theorem Steady.calculate_answer (h : document.Steady) :
    document.calculate.1 = (document.sheet.computeAll (.fresh _)).1 := by
  obtain ⟨sheet, progress, source, calculated⟩ := document
  cases calculated with
  | true =>
      rw [calculate_of_calculated rfl, eq_comm, sheet.consistent_fresh.computeAll_eq_ok_iff]
      intro cell inside
      obtain ⟨value, hvalue⟩ := Mark.isDone_iff.1 (h.complete rfl (sheet.index cell inside))
      exact ⟨value, h.consistent.sound.denotes_index inside hvalue⟩
  | false =>
      have hsame : (sheet.computeAll progress).1 = (sheet.computeAll (.fresh _)).1 :=
        h.consistent.computeEach_congr sheet.consistent_fresh sheet.addresses
      rcases hcomputed : sheet.computeAll progress with ⟨fault | ⟨⟩, later⟩
      · rw [calculate_of_error hcomputed, ← hsame, hcomputed]
      · rw [calculate_of_ok hcomputed, ← hsame, hcomputed]

theorem calculated_append (h : (document.afterAll operations).calculated = true)
    (more : List Operation) : (document.afterAll (operations ++ more)).calculated = true := by
  rw [afterAll_append]
  exact (calculated_afterAll _ more).2 (Or.inl h)

/-- There is one text for the values of a sheet, in whatever document they are. -/
theorem exists_write (sheet : Sheet) {places : Nat} (hplaces : places ≤ Decimal.maxPlaces) :
    ∃ text, ∀ document : Document, document.sheet = sheet → document.Steady →
      document.calculated = true → document.write places .unbounded = (.ok (), ⟨none, text⟩) := by
  obtain ⟨text, htext⟩ := sheet.exists_text hplaces
  refine ⟨text, ?_⟩
  rintro ⟨_, progress, source, calculated⟩ rfl hsteady hcalculated
  exact htext progress hsteady.consistent (hsteady.complete hcalculated)

/-- A document counts as calculated exactly from the first calculation that succeeds.  From
then on it has all values, another calculation changes nothing, and what is written with
as many places is always the same.  Writing tells of missing values exactly while there are
some, and gives nothing out then.  All calculations of a document have the same answer. -/
theorem Made.lifecycle (hmade : document.Made) (operations : List Operation) :
    ((document.afterAll operations).calculated = true ↔
      ∃ before, before ++ [.calculate] <+: operations ∧
        (document.afterAll before).calculate.1 = .ok ()) ∧
    ((document.afterAll operations).calculated = true →
      (∀ more, (document.afterAll (operations ++ more)).progress.Complete ∧
        (document.afterAll (operations ++ more)).calculate =
          (.ok (), document.afterAll (operations ++ more))) ∧
      ∀ places, places ≤ Decimal.maxPlaces → ∃ text, ∀ more,
        (document.afterAll (operations ++ more)).write places .unbounded =
          (.ok (), ⟨none, text⟩)) ∧
    (∀ places sink,
      (((document.afterAll operations).write places sink).1 = .error .notCalculated ↔
        ¬(document.afterAll operations).progress.Complete) ∧
      (¬(document.afterAll operations).progress.Complete →
        ((document.afterAll operations).write places sink).2 = sink)) ∧
    (document.afterAll operations).calculate.1 = document.calculate.1 := by
  have hfresh : document.calculated = false := by
    obtain ⟨sheet, source, rfl⟩ := hmade.exists_eq_ofSheet
    rfl
  have hsteady : ∀ operations, (document.afterAll operations).Steady := hmade.steady.afterAll
  refine ⟨?_, ?_, ?_, ?_⟩
  · rw [calculated_afterAll, hfresh]
    simp
  · intro hcalculated
    refine ⟨fun more => ?_, fun places hplaces => ?_⟩
    · have hstill := calculated_append hcalculated more
      exact ⟨(hsteady _).complete hstill, calculate_of_calculated hstill⟩
    · obtain ⟨text, htext⟩ := exists_write document.sheet hplaces
      exact ⟨text, fun more => htext _ (document.sheet_afterAll _) (hsteady _)
        (calculated_append hcalculated more)⟩
  · intro places sink
    refine ⟨Results.write_eq_notCalculated_iff sink, fun hmissing => ?_⟩
    rw [write, Results.write_of_not_complete hmissing]
  · rw [(hsteady operations).calculate_answer, hmade.steady.calculate_answer, sheet_afterAll]

namespace LifecycleWitness

def bytes : List UInt8 := Text.encode "1 4\nB1 ++\nC1 2 *\n5\nA1\n"

def column : Sheet where
  rows := 4
  cols := 1
  formulas := #v[⟨"B1 ++"⟩, ⟨"C1 2 *"⟩, ⟨"5"⟩, ⟨"A1"⟩]
  rows_pos := Nat.succ_pos 3
  cols_pos := Nat.one_pos
  rows_le := by decide
  size_le := by decide
  not_blank := by decide

/-- Before the calculation one cell is evaluated, and the values are asked for too early. -/
def visits : List Operation :=
  [.compute ⟨1, 0⟩ (Trail.empty.push ⟨3, 0⟩), .write 2 (.bounded 3), .calculate,
    .computeSheet]

theorem lifecycle_column :
    SheetText.read bytes = .ok column ∧ (Document.ofSheet column none).Made ∧
      ((Document.ofSheet column none).afterAll visits).calculated = true ∧
      ∀ more, ((Document.ofSheet column none).afterAll (visits ++ more)).write 0 .unbounded =
        (.ok (), ⟨none, "1 4\n11\n10\n5\n11\n"⟩) := by
  have hread : SheetText.read bytes = .ok column := by rfl
  have hmade : (Document.ofSheet column none).Made := .given none hread
  have hcalculated : ((Document.ofSheet column none).afterAll visits).calculated = true := by
    decide +kernel
  obtain ⟨-, hlater, -⟩ := hmade.lifecycle visits
  obtain ⟨text, htext⟩ := (hlater hcalculated).2 0 (by decide)
  have hwritten : ((Document.ofSheet column none).afterAll (visits ++ [])).write 0 .unbounded =
      (.ok (), ⟨none, "1 4\n11\n10\n5\n11\n"⟩) := by decide +kernel
  have hsame := (htext []).symm.trans hwritten
  refine ⟨hread, hmade, hcalculated, fun more => ?_⟩
  rw [htext, hsame]

end LifecycleWitness

end Document

end PostfixSheet
