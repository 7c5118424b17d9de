/-
Evaluations in any order.

What is left behind by evaluations that all succeed depends only on which cells were
asked for.  The cells that these reach have their values, with the last reference of
their formulas and one run each; all other cells are as they were at first.
-/
import PostfixSheet.Proofs.Records
import PostfixSheet.Proofs.Workload

namespace PostfixSheet

namespace Sheet

variable {sheet : Sheet} {cell : Address} {progress other : Progress sheet.size}
  {asked : Address → Prop} {requests : List (Address × Trail)}

/-- The calls that evaluate cells in order, each on top of its trail. -/
def callsFor (requests : List (Address × Trail)) : List Call :=
  requests.map fun request => .cell request.1 request.2

/-- All evaluations in order find values. -/
def Succeeds (sheet : Sheet) : List (Address × Trail) → Progress sheet.size → Prop
  | [], _ => True
  | (cell, trail) :: rest, progress =>
    (∃ value, (sheet.compute cell ⟨progress, trail⟩).1 = .ok value) ∧
      sheet.Succeeds rest (sheet.after progress (.cell cell trail))

/-- The progress that the evaluation of the cells in `asked` comes to. -/
structure Outcome (sheet : Sheet) (asked : Address → Prop) (progress : Progress sheet.size) :
    Prop extends sheet.Regular progress where
  agreeing : progress.Agreeing
  done : ∀ place : Fin sheet.size, (progress.mark place).isDone = true ↔
    ∃ cell, asked cell ∧ sheet.Reaches cell (sheet.address place)
  untouched : ∀ place : Fin sheet.size,
    (¬∃ cell, asked cell ∧ sheet.Reaches cell (sheet.address place)) →
    progress.mark place = .untouched
  workload : (⟨progress, .empty⟩ : Run sheet).workload = sheet.size

theorem outcome_fresh (sheet : Sheet) : sheet.Outcome (fun _ => False) (.fresh _) where
  toRegular := sheet.regular_fresh
  agreeing := Progress.agreeing_fresh _
  done := by simp [Mark.isDone]
  untouched := by simp
  workload := Run.workload_fresh sheet .empty

theorem Outcome.congr {asked' : Address → Prop} (h : sheet.Outcome asked progress)
    (hsame : ∀ cell, asked cell ↔ asked' cell) : sheet.Outcome asked' progress := by
  obtain rfl : asked = asked' := funext fun cell => propext (hsame cell)
  exact h

/-- A further cell that has a value adds all cells that it reaches. -/
theorem Outcome.compute (h : sheet.Outcome asked progress) {value : Float} {trail : Trail}
    (hok : (sheet.compute cell ⟨progress, trail⟩).1 = .ok value) :
    sheet.Outcome (fun other => other = cell ∨ asked other)
      (sheet.compute cell ⟨progress, trail⟩).2.progress := by
  have hdenotes := (consistent_compute cell ⟨progress, trail⟩ h.consistent).2 value hok
  have hclear := h.consistent.clear ⟨value, hdenotes⟩
  obtain ⟨later, hlater, hsettles, -⟩ := compute_settles hdenotes ⟨progress, trail⟩ hclear
  have hregular : sheet.Regular (sheet.compute cell ⟨progress, trail⟩).2.progress :=
    Regular.compute h.toRegular cell
  have hagreeing := agreeing_compute cell ⟨progress, trail⟩ h.agreeing
  have hworkload := workload_compute_of_hasValue ⟨value, hdenotes⟩ ⟨progress, trail⟩ hclear
  rw [hlater] at hregular hagreeing hworkload ⊢
  have hasked : ∀ place : Fin sheet.size,
      (∃ other, (other = cell ∨ asked other) ∧ sheet.Reaches other (sheet.address place)) ↔
        sheet.Reaches cell (sheet.address place) ∨
          ∃ other, asked other ∧ sheet.Reaches other (sheet.address place) := by
    intro place
    simp only [or_and_right, exists_or, exists_eq_left]
  constructor
  case toRegular => exact hregular
  case agreeing => exact hagreeing
  case done =>
    intro place
    rw [hasked place]
    by_cases hreaches : sheet.Reaches cell (sheet.address place)
    · simp only [hreaches, true_or, iff_true]
      exact hsettles.done hreaches
    · simp only [hreaches, false_or]
      rw [hsettles.mark_eq place hreaches]
      exact h.done place
  case untouched =>
    intro place hoff
    rw [hasked place, not_or] at hoff
    rw [hsettles.mark_eq place hoff.1]
    exact h.untouched place hoff.2
  case workload => exact hworkload.trans h.workload

theorem Outcome.of_succeeds (h : sheet.Outcome asked progress)
    (hsucceeds : sheet.Succeeds requests progress) :
    sheet.Outcome (fun cell => (∃ request ∈ requests, request.1 = cell) ∨ asked cell)
      ((callsFor requests).foldl sheet.after progress) := by
  induction requests generalizing asked progress with
  | nil => exact h.congr (by simp)
  | cons request rest ih =>
      obtain ⟨⟨value, hok⟩, hrest⟩ := hsucceeds
      refine (ih (h.compute hok) hrest).congr ?_
      intro cell
      simp only [List.mem_cons, or_and_right, exists_or, exists_eq_left]
      rw [or_left_comm, or_assoc, eq_comm]

theorem Outcome.unique {asked' : Address → Prop} (h : sheet.Outcome asked progress)
    (h' : sheet.Outcome asked' other)
    (hsame : ∀ place, (progress.mark place).isDone = true ↔ (other.mark place).isDone = true) :
    progress = other := by
  have hmarks : ∀ place, progress.mark place = other.mark place := by
    intro place
    by_cases hdone : (progress.mark place).isDone = true
    · obtain ⟨value, hvalue⟩ := Mark.isDone_iff.1 hdone
      obtain ⟨value', hvalue'⟩ := Mark.isDone_iff.1 ((hsame place).1 hdone)
      rw [hvalue, hvalue', (h.consistent.sound.denotes place value hvalue).unique
        (h'.consistent.sound.denotes place value' hvalue')]
    · have hother : ¬(other.mark place).isDone = true := mt (hsame place).2 hdone
      rw [h.untouched place (mt (h.done place).2 hdone),
        h'.untouched place (mt (h'.done place).2 hother)]
  refine h.agreeing.ext h'.agreeing hmarks ?_ ?_
  · intro place
    by_cases hdone : (progress.mark place).isDone = true
    · rw [h.recorded.done place hdone, h'.recorded.done place (hmarks place ▸ hdone)]
    · have huntouched := h.untouched place (mt (h.done place).2 hdone)
      rw [h.recorded.untouched place huntouched,
        h'.recorded.untouched place (hmarks place ▸ huntouched)]
  · have hpending : (⟨progress, .empty⟩ : Run sheet).pendingCount =
        (⟨other, .empty⟩ : Run sheet).pendingCount :=
      Run.pendingCount_congr fun place => by simp only [Run.Done, hmarks]
    have hworkload := h.workload.trans h'.workload.symm
    rw [Run.workload, Run.workload, hpending] at hworkload
    exact Nat.add_right_cancel hworkload

/-- A calculation that succeeds is the evaluation of its cells in order. -/
theorem computeEach_of_ok {cells : List Address}
    (hok : (sheet.computeEach cells progress).1 = .ok ()) :
    sheet.Succeeds (cells.map fun cell => (cell, .empty)) progress ∧
      (sheet.computeEach cells progress).2 =
        (callsFor (cells.map fun cell => (cell, .empty))).foldl sheet.after progress := by
  induction cells generalizing progress with
  | nil => exact ⟨trivial, rfl⟩
  | cons first rest ih =>
      rw [Sheet.computeEach] at hok ⊢
      rcases hfirst : sheet.compute first ⟨progress, .empty⟩ with ⟨fault | value, later⟩
      · rw [hfirst] at hok
        cases hok
      · rw [hfirst] at hok
        have hafter : later.progress = sheet.after progress (.cell first .empty) := by
          rw [after, hfirst]
        obtain ⟨hsucceeds, hsame⟩ := ih hok
        rw [hafter] at hsucceeds hsame
        refine ⟨⟨⟨value, by rw [hfirst]⟩, hsucceeds⟩, ?_⟩
        dsimp only
        rw [hafter, hsame]
        rfl

/-- Evaluations that all succeed, on whatever trails, give their values to the cells
that are reached from those asked for and leave the others untouched.  Neither order nor
repetitions matter for what comes out; for all cells, it is what a calculation of the
sheet gives. -/
theorem afterAll_of_succeeds (hsucceeds : sheet.Succeeds requests (.fresh _)) :
    (∀ place : Fin sheet.size,
      (sheet.afterAll (callsFor requests)).stage place = .done ↔
        ∃ request ∈ requests, sheet.Reaches request.1 (sheet.address place)) ∧
    (∀ place : Fin sheet.size,
      (¬∃ request ∈ requests, sheet.Reaches request.1 (sheet.address place)) →
        (sheet.afterAll (callsFor requests)).entry place = ⟨.untouched, none, none⟩) ∧
    (∀ others, sheet.Succeeds others (.fresh _) →
      (∀ cell, (∃ request ∈ others, request.1 = cell) ↔ ∃ request ∈ requests, request.1 = cell) →
      sheet.afterAll (callsFor others) = sheet.afterAll (callsFor requests)) ∧
    ((∀ cell, sheet.Holds cell → ∃ request ∈ requests, request.1 = cell) →
      sheet.computeAll (.fresh _) = (.ok (), sheet.afterAll (callsFor requests))) := by
  have houtcome := sheet.outcome_fresh.of_succeeds hsucceeds
  have hdone : ∀ place : Fin sheet.size,
      ((sheet.afterAll (callsFor requests)).mark place).isDone = true ↔
        ∃ request ∈ requests, sheet.Reaches request.1 (sheet.address place) := by
    intro place
    rw [afterAll, houtcome.done place]
    simp only [or_false]
    constructor
    · rintro ⟨_, ⟨request, hrequest, rfl⟩, hreaches⟩
      exact ⟨request, hrequest, hreaches⟩
    · rintro ⟨request, hrequest, hreaches⟩
      exact ⟨request.1, ⟨request, hrequest, rfl⟩, hreaches⟩
  have hagreeing := sheet.agreeing_afterAll (callsFor requests)
  refine ⟨fun place => (hagreeing place).isDone_mark_iff.symm.trans (hdone place), ?_, ?_, ?_⟩
  · intro place hoff
    have huntouched : (sheet.afterAll (callsFor requests)).mark place = .untouched :=
      houtcome.untouched place (mt (houtcome.done place).2 (mt (hdone place).1 hoff))
    exact (hagreeing place).ext (Progress.entry_fresh place ▸ Progress.agreeing_fresh _ place)
      huntouched (houtcome.recorded.untouched place huntouched)
  · intro others hothers hsame
    have hother := sheet.outcome_fresh.of_succeeds hothers
    apply hother.unique houtcome
    intro place
    rw [hother.done place, houtcome.done place]
    simp only [hsame]
  · intro hall
    have hcomplete : (sheet.afterAll (callsFor requests)).Complete := by
      intro place
      obtain ⟨request, hrequest, hcell⟩ := hall _ (sheet.holds_address place)
      exact (hdone place).2 ⟨request, hrequest, hcell ▸ .refl _⟩
    have hvalues : ∀ cell, sheet.Holds cell → sheet.HasValue cell := by
      intro cell inside
      obtain ⟨value, hvalue⟩ := Mark.isDone_iff.1 (hcomplete (sheet.index cell inside))
      exact ⟨value, houtcome.consistent.sound.denotes_index inside hvalue⟩
    have hok := sheet.consistent_fresh.computeAll_eq_ok_iff.2 hvalues
    obtain ⟨hcells, hprogress⟩ := computeEach_of_ok hok
    have hcalculated := complete_of_computeAll_eq_ok hok
    rw [computeAll, hprogress] at hcalculated
    have hsame := (sheet.outcome_fresh.of_succeeds hcells).unique houtcome fun place =>
      iff_of_true (hcalculated place) (hcomplete place)
    exact Prod.ext hok (hprogress.trans hsame)

namespace OrderWitness

/-- One cell is reached on two ways; the last one is not reached at all. -/
def diamond : Sheet where
  rows := 5
  cols := 1
  formulas := #v[⟨"B1 C1 +"⟩, ⟨"D1"⟩, ⟨"D1"⟩, ⟨"1"⟩, ⟨"E1"⟩]
  rows_pos := by decide
  cols_pos := Nat.one_pos
  rows_le := by decide
  size_le := by decide
  not_blank := by decide

/-- The trail lists a cell that is reached and one that is not in the sheet. -/
def downward : List (Address × Trail) :=
  [(⟨0, 0⟩, (Trail.empty.push ⟨9, 9⟩).push ⟨3, 0⟩), (⟨2, 0⟩, .empty), (⟨0, 0⟩, .empty)]

def upward : List (Address × Trail) :=
  [(⟨2, 0⟩, Trail.empty.push ⟨0, 0⟩), (⟨0, 0⟩, .empty)]

/-- From above or from below, the diamond is left in one and the same progress. -/
theorem afterAll_of_succeeds_diamond :
    diamond.Succeeds downward (.fresh _) ∧ diamond.Succeeds upward (.fresh _) ∧
      (diamond.afterAll (callsFor downward)).entries.toList.map Entry.value =
        [some 2.0, some 1.0, some 1.0, some 1.0, none] ∧
      (diamond.afterAll (callsFor downward)).evaluations = 4 ∧
      diamond.afterAll (callsFor upward) = diamond.afterAll (callsFor downward) := by
  have hdownward : diamond.Succeeds downward (.fresh _) :=
    ⟨⟨2.0, by decide +kernel⟩, ⟨1.0, by decide +kernel⟩, ⟨2.0, by decide +kernel⟩, trivial⟩
  have hupward : diamond.Succeeds upward (.fresh _) :=
    ⟨⟨1.0, by decide +kernel⟩, ⟨2.0, by decide +kernel⟩, trivial⟩
  refine ⟨hdownward, hupward, by decide +kernel, by decide +kernel, ?_⟩
  apply (afterAll_of_succeeds hdownward).2.2.1 upward hupward
  intro cell
  simp [downward, upward, or_comm]

end OrderWitness

end Sheet

end PostfixSheet
