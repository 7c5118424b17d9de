/-
Calculation of cells, each with the cells that its formula refers to.

A value once found is kept.  A failed evaluation is not undone: its cells stay
marked as started and stay on the trail, and a later evaluation may enter them
again.
-/
import PostfixSheet.Postfix
import PostfixSheet.Run

namespace PostfixSheet

namespace Sheet

def site (sheet : Sheet) (cell : Address) (h : sheet.Holds cell) : Site :=
  ⟨cell, sheet.formulas[sheet.index cell h], sheet.rows, sheet.cols⟩

/-- The text of the formula of a cell; nothing outside the sheet. -/
def textOf (sheet : Sheet) (cell : Address) : String :=
  match sheet.formula? cell with
  | some formula => formula.text
  | none => ""

/-- The circle that is closed by meeting a cell again.  The cell that was entered
last is the one whose reference leads back. -/
def circleAt (sheet : Sheet) (run : Run sheet) (revisited : Address) : Circle :=
  let trigger := run.trail.last?.getD revisited
  let reference := (sheet.index? trigger).bind fun place => run.progress.lastReference place
  { trigger
    triggerText := sheet.textOf trigger
    reference := reference.getD revisited.name
    revisited
    revisitedText := sheet.textOf revisited
    chain := run.trail.circleThrough revisited }

/-- Evaluates a cell on top of a run and shows that the new run comes after it. -/
def computeFrom (sheet : Sheet) (cell : Address) (run : Run sheet) :
    { result : Except Fault Float × Run sheet // run.Leads result.2 } :=
  if inside : sheet.Holds cell then
    let place := sheet.index cell inside
    match hknown : (run.progress.mark place).value? with
    | some value => ⟨(.ok value, run), .refl run⟩
    | none =>
      if hguarded : run.Guarded place then
        ⟨(.error (.circular (sheet.circleAt run cell)), run), .refl run⟩
      else
        have hpending : ¬run.Done place := run.not_done_of_value?_eq_none hknown
        have hfalls : (run.enter place cell).rank < run.rank := by
          simpa [place, address_index inside] using Run.rank_enter_lt hpending hguarded
        have henters : run.Leads (run.enter place cell) := by
          simpa [place, address_index inside] using Run.leads_enter hpending hguarded
        let lookup : Lookup { later : Run sheet // (run.enter place cell).Leads later } :=
          fun target reference later =>
            have hfollows := later.2.trans (later.1.leads_follow place reference)
            have : (later.1.follow place reference).rank < run.rank :=
              Nat.lt_of_le_of_lt hfollows.2 hfalls
            let result := computeFrom sheet target (later.1.follow place reference)
            (result.1.1, ⟨result.1.2, hfollows.trans result.2⟩)
        match (sheet.site cell inside).evaluate lookup
            ⟨run.enter place cell, .refl _⟩ with
        | (.ok value, later) =>
          ⟨(.ok value, later.1.finish place value),
            Run.leads_finish (henters.trans later.2) hpending value⟩
        | (.error fault, later) => ⟨(.error fault, later.1), henters.trans later.2⟩
  else
    ⟨(.error (.outside cell cell.name sheet.rows sheet.cols), run), .refl run⟩
termination_by run.rank

/-- Evaluates a cell on top of a run.  A cell with a value answers at once; one
that is guarded closes a circle; any other has its formula run, with references
evaluated as they come. -/
def compute (sheet : Sheet) (cell : Address) (run : Run sheet) :
    Except Fault Float × Run sheet :=
  (sheet.computeFrom cell run).1

/-- What an evaluation does, step by step. -/
theorem compute_eq (sheet : Sheet) (cell : Address) (run : Run sheet) :
    sheet.compute cell run =
      if inside : sheet.Holds cell then
        let place := sheet.index cell inside
        match (run.progress.mark place).value? with
        | some value => (.ok value, run)
        | none =>
          if run.Guarded place then (.error (.circular (sheet.circleAt run cell)), run)
          else
            match (sheet.site cell inside).evaluate
                (fun target reference later =>
                  sheet.compute target (later.follow place reference))
                (run.enter place cell) with
            | (.ok value, later) => (.ok value, later.finish place value)
            | (.error fault, later) => (.error fault, later)
      else (.error (.outside cell cell.name sheet.rows sheet.cols), run) := by
  change (sheet.computeFrom cell run).1 = _
  rw [computeFrom]
  by_cases inside : sheet.Holds cell
  · simp only [inside, dite_true]
    split
    · simp_all
    · rename_i hknown
      by_cases hguarded : run.Guarded (sheet.index cell inside)
      · simp_all
      · simp only [hguarded, dite_false, if_false, hknown]
        let entered := run.enter (sheet.index cell inside) cell
        let lookup : Lookup { later : Run sheet // entered.Leads later } :=
          fun target reference later =>
            let result :=
              sheet.computeFrom target (later.1.follow (sheet.index cell inside) reference)
            (result.1.1, ⟨result.1.2, (later.2.trans
              (later.1.leads_follow (sheet.index cell inside) reference)).trans result.2⟩)
        have hsame : (sheet.site cell inside).evaluate (fun target reference later =>
              sheet.compute target (later.follow (sheet.index cell inside) reference)) entered =
            (((sheet.site cell inside).evaluate lookup ⟨entered, .refl _⟩).1,
              ((sheet.site cell inside).evaluate lookup ⟨entered, .refl _⟩).2.1) :=
          @Site.evaluate_map _ _ Subtype.val (sheet.site cell inside) lookup
            (fun target reference later =>
              sheet.compute target (later.follow (sheet.index cell inside) reference))
            (fun _ _ _ => rfl) ⟨entered, .refl _⟩
        rw [hsame]
        cases (sheet.site cell inside).evaluate lookup ⟨entered, .refl _⟩ with
        | mk answer later => cases answer <;> rfl
  · simp [inside]

/-- Evaluates cells one after the other, each with a trail of its own, up to the
first that fails. -/
def computeEach (sheet : Sheet) :
    List Address → Progress sheet.size → Except Fault Unit × Progress sheet.size
  | [], progress => (.ok (), progress)
  | cell :: rest, progress =>
    match sheet.compute cell ⟨progress, .empty⟩ with
    | (.ok _, run) => sheet.computeEach rest run.progress
    | (.error fault, run) => (.error fault, run.progress)

def computeAll (sheet : Sheet) (progress : Progress sheet.size) :
    Except Fault Unit × Progress sheet.size :=
  sheet.computeEach sheet.addresses progress

end Sheet

end PostfixSheet
