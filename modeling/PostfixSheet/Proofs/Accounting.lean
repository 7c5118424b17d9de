/-
How often formulas are run.

Every run of a formula gives its cell a value or leaves the cell on the trail.  So an
evaluation has made as many runs as cells have got their values and are on the trail after
it: no formula is run twice, however many references lead to its cell.
-/
import Mathlib.Data.Set.Card
import PostfixSheet.Proofs.Failure
import PostfixSheet.Proofs.Order

namespace PostfixSheet

namespace Progress

variable {size : Nat}

def valued (progress : Progress size) : Set (Fin size) :=
  {place | (progress.mark place).isDone = true}

/-- The places of the cells that have been entered and have no value. -/
def abandoned (progress : Progress size) : Set (Fin size) :=
  {place | progress.mark place = .started}

theorem abandoned_subset (progress : Progress size) : progress.abandoned ⊆ progress.valuedᶜ := by
  intro place hstarted hvalued
  change progress.mark place = .started at hstarted
  simp [valued, hstarted, Mark.isDone] at hvalued

/-- No cell is counted twice. -/
theorem ncard_valued_add_ncard_abandoned_le (progress : Progress size) :
    progress.valued.ncard + progress.abandoned.ncard ≤ size := by
  have hall := Set.ncard_add_ncard_compl progress.valued
  rw [Nat.card_fin] at hall
  have hfew := Set.ncard_le_ncard progress.abandoned_subset
  omega

end Progress

namespace Run

variable {sheet : Sheet}

theorem pendingCount_eq_ncard (run : Run sheet) :
    run.pendingCount = run.progress.valuedᶜ.ncard := by
  have hplaces : run.progress.valuedᶜ =
      ((List.finRange sheet.size).filter fun place => ¬run.Done place).toFinset := by
    ext place
    simp [Progress.valued, Done]
  rw [hplaces, Set.ncard_coe_finset,
    List.toFinset_card_of_nodup ((List.nodup_finRange _).filter _), pendingCount,
    List.countP_eq_length_filter]

/-- The workload is known from the runs so far and the cells that have their values. -/
theorem workload_add_ncard_valued (run : Run sheet) :
    run.workload + run.progress.valued.ncard = run.progress.evaluations + sheet.size := by
  have hall := Set.ncard_add_ncard_compl run.progress.valued
  rw [← pendingCount_eq_ncard, Nat.card_fin] at hall
  rw [workload]
  omega

end Run

namespace Sheet

variable {sheet : Sheet} {cell : Address} {progress later : Progress sheet.size}
  {last : Run sheet} {answer : Except Fault Float} {chain : List Address}

theorem ncard_places (hnodup : chain.Nodup) (hholds : ∀ other ∈ chain, sheet.Holds other) :
    {place : Fin sheet.size | sheet.address place ∈ chain}.ncard = chain.length := by
  have himage : (fun place : Fin sheet.size => sheet.address place) ''
      {place | sheet.address place ∈ chain} = chain.toFinset := by
    ext other
    simp only [Set.mem_image, Finset.mem_coe, List.mem_toFinset]
    constructor
    · rintro ⟨place, hplace, rfl⟩
      exact hplace
    · intro hother
      refine ⟨sheet.index other (hholds other hother), ?_, address_index (hholds other hother)⟩
      change sheet.address (sheet.index other _) ∈ chain
      rwa [address_index]
  rw [← List.toFinset_card_of_nodup hnodup, ← Set.ncard_coe_finset, ← himage,
    Set.ncard_image_of_injective _ fun place other => address_inj.1]

/-- What an evaluation without a trail leaves behind is on the trail then. -/
theorem Regular.stranded (h : sheet.Regular progress) (inside : sheet.Holds cell)
    (hcompute : sheet.compute cell ⟨progress, .empty⟩ = (answer, last)) :
    sheet.Stranded ⟨progress, .empty⟩ last last.trail.toList := by
  suffices hexists : ∃ chain, sheet.Stranded ⟨progress, .empty⟩ last chain by
    obtain ⟨chain, hstranded⟩ := hexists
    obtain rfl : last.trail.toList = chain := hstranded.trail_eq
    exact hstranded
  have hentered := entered_empty progress
  obtain rfl : (sheet.compute cell ⟨progress, .empty⟩).2 = last := congrArg Prod.snd hcompute
  cases answer with
  | error fault =>
      obtain ⟨chain, hstranded, -⟩ :=
        compute_stranded inside h hentered fault (congrArg Prod.fst hcompute)
      exact ⟨chain, hstranded⟩
  | ok value => exact ⟨[], Regular.stranded_nil h hentered (congrArg Prod.fst hcompute)⟩

theorem valued_subset_compute (cell : Address) (run : Run sheet) :
    run.progress.valued ⊆ (sheet.compute cell run).2.progress.valued :=
  (sheet.leads_compute cell run).1

theorem Stranded.ncard_add_length_le {run : Run sheet} (h : sheet.Stranded run last chain) :
    last.progress.valued.ncard + chain.length ≤ sheet.size := by
  refine Nat.le_trans (Nat.add_le_add_left ?_ _) last.progress.ncard_valued_add_ncard_abandoned_le
  rw [← ncard_places h.nodup fun other hother => (h.started other hother).1]
  refine Set.ncard_le_ncard ?_
  intro place hplace
  obtain ⟨inside, hstarted⟩ := h.started _ hplace
  rwa [index_address] at hstarted

/-- A cell with a value gives their values to the cells that it reaches. -/
theorem Settles.valued_diff (h : sheet.Settles cell progress later) :
    later.valued \ progress.valued =
      {place : Fin sheet.size | sheet.Reaches cell (sheet.address place)} \ progress.valued := by
  ext place
  simp only [Set.mem_sdiff]
  refine and_congr_left fun hpending => ?_
  constructor
  · intro hdone
    by_contra hoff
    exact hpending ((congrArg Mark.isDone (h.mark_eq place hoff)).symm.trans hdone)
  · exact h.done

/-- The runs of one evaluation are counted by what it leaves behind, and are no more than
there are cells without a value before. -/
theorem Regular.evaluations_compute (h : sheet.Regular progress) (inside : sheet.Holds cell)
    (hcompute : sheet.compute cell ⟨progress, .empty⟩ = (answer, last)) :
    last.progress.evaluations = progress.evaluations +
        ((last.progress.valued \ progress.valued).ncard + last.trail.length) ∧
      (last.progress.valued \ progress.valued).ncard + last.trail.length ≤
        progress.valuedᶜ.ncard := by
  have hstranded := h.stranded inside hcompute
  have hkept : progress.valued ⊆ last.progress.valued := by
    have hsubset := sheet.valued_subset_compute cell ⟨progress, .empty⟩
    rwa [hcompute] at hsubset
  have hgained := Set.ncard_sdiff_add_ncard_of_subset hkept
  have hall := Set.ncard_add_ncard_compl progress.valued
  rw [Nat.card_fin] at hall
  have hbound := hstranded.ncard_add_length_le
  have hbefore : (⟨progress, .empty⟩ : Run sheet).workload + progress.valued.ncard =
      progress.evaluations + sheet.size := Run.workload_add_ncard_valued ⟨progress, .empty⟩
  have hafter := last.workload_add_ncard_valued
  rw [hstranded.workload] at hafter
  rw [Trail.length_toList] at hafter hbound
  omega

/-- The runs of an evaluation that succeeds are those of the cells that it reaches and that
had no value. -/
theorem Regular.evaluations_compute_of_ok (h : sheet.Regular progress)
    (inside : sheet.Holds cell) {value : Float}
    (hcompute : sheet.compute cell ⟨progress, .empty⟩ = (.ok value, last)) :
    last.progress.evaluations = progress.evaluations +
      ({place : Fin sheet.size | sheet.Reaches cell (sheet.address place)} \
        progress.valued).ncard := by
  have hdenotes := (h.consistent.compute_eq_ok_iff .empty).1 (congrArg Prod.fst hcompute)
  obtain ⟨later, hlater, hsettles, htrail⟩ := compute_settles hdenotes ⟨progress, .empty⟩
    (h.consistent.clear ⟨value, hdenotes⟩)
  obtain rfl : later = last := congrArg Prod.snd (hlater.symm.trans hcompute)
  have hnone : later.trail = .empty :=
    htrail fun other hother => absurd hother (Trail.not_mem_empty other)
  rw [(h.evaluations_compute inside hcompute).1, hsettles.valued_diff, hnone]
  rfl

/-- Cells that are evaluated with success from the start leave none behind. -/
theorem Outcome.abandoned_eq_empty {asked : Address → Prop} (h : sheet.Outcome asked progress) :
    progress.abandoned = ∅ := by
  refine Set.eq_empty_iff_forall_notMem.2 ?_
  intro place hstarted
  change progress.mark place = .started at hstarted
  have hpending : ¬(progress.mark place).isDone = true := by simp [hstarted, Mark.isDone]
  cases hstarted.symm.trans (h.untouched place (mt (h.done place).2 hpending))

theorem outcome_computeEach {cells : List Address}
    (hok : (sheet.computeEach cells (.fresh _)).1 = .ok ()) :
    ∃ asked, sheet.Outcome asked (sheet.computeEach cells (.fresh _)).2 := by
  obtain ⟨hsucceeds, hsame⟩ := computeEach_of_ok hok
  rw [hsame]
  exact ⟨_, sheet.outcome_fresh.of_succeeds hsucceeds⟩

/-- The cells on the trail after a failure are all that has been left behind since the
start. -/
theorem Stranded.abandoned_eq {asked : Address → Prop} (houtcome : sheet.Outcome asked progress)
    (h : sheet.Stranded ⟨progress, .empty⟩ last chain) :
    last.progress.abandoned = {place : Fin sheet.size | sheet.address place ∈ chain} := by
  ext place
  constructor
  · intro hstarted
    change last.progress.mark place = .started at hstarted
    by_contra hoff
    rcases h.advances place hoff with ⟨hmark, -⟩ | ⟨-, hdone⟩
    · have hbefore : place ∈ progress.abandoned := hmark.symm.trans hstarted
      rw [houtcome.abandoned_eq_empty] at hbefore
      exact hbefore
    · rw [hstarted] at hdone
      cases hdone
  · intro hplace
    obtain ⟨inside, hstarted⟩ := h.started _ hplace
    rwa [index_address] at hstarted

/-- A calculation from the start has run the formula of each cell that has its value or has
been left behind, and each once. -/
theorem evaluations_computeAll_fresh (sheet : Sheet) :
    (sheet.computeAll (.fresh _)).2.evaluations =
      (sheet.computeAll (.fresh _)).2.valued.ncard +
        (sheet.computeAll (.fresh _)).2.abandoned.ncard := by
  rcases hanswer : sheet.computeAll (.fresh _) with ⟨fault | ⟨⟩, later⟩
  · obtain ⟨before, cell, after, run, hsplit, hok, hcell, rfl⟩ := computeEach_eq_error hanswer
    obtain ⟨asked, houtcome⟩ := outcome_computeEach hok
    have inside : sheet.Holds cell := holds_of_mem_addresses (by simp [hsplit])
    have hstranded := houtcome.stranded inside hcell
    have hcounted := run.workload_add_ncard_valued
    rw [hstranded.workload, houtcome.workload] at hcounted
    rw [hstranded.abandoned_eq houtcome,
      ncard_places hstranded.nodup fun other hother => (hstranded.started other hother).1]
    dsimp only
    omega
  · have hok : (sheet.computeEach sheet.addresses (.fresh _)).1 = .ok () :=
      congrArg Prod.fst hanswer
    obtain ⟨asked, houtcome⟩ := outcome_computeEach hok
    have hlater : (sheet.computeEach sheet.addresses (.fresh _)).2 = later :=
      congrArg Prod.snd hanswer
    rw [hlater] at houtcome
    have hcounted := Run.workload_add_ncard_valued (⟨later, .empty⟩ : Run sheet)
    rw [houtcome.workload] at hcounted
    rw [houtcome.abandoned_eq_empty, Set.ncard_empty]
    exact Nat.add_right_cancel (hcounted.symm.trans (Nat.add_comm ..))

/-- One call runs as many formulas as cells get their values by it and are on the trail
after it, and no more than there were cells without a value; with success, one for each cell
without a value that is reached.  A calculation from the start runs one formula for each cell
that has its value or has been left behind, so no more than there are cells, and as many with
success. -/
theorem evaluations_of_calls (sheet : Sheet) :
    (∀ calls cell answer later, sheet.Holds cell →
      sheet.compute cell ⟨sheet.afterAll calls, .empty⟩ = (answer, later) →
      later.progress.evaluations = (sheet.afterAll calls).evaluations +
          ((later.progress.valued \ (sheet.afterAll calls).valued).ncard + later.trail.length) ∧
        (later.progress.valued \ (sheet.afterAll calls).valued).ncard + later.trail.length ≤
          (sheet.afterAll calls).valuedᶜ.ncard ∧
        ∀ value, answer = .ok value → later.progress.evaluations =
          (sheet.afterAll calls).evaluations +
            ({place : Fin sheet.size | sheet.Reaches cell (sheet.address place)} \
              (sheet.afterAll calls).valued).ncard) ∧
    ∀ answer later, sheet.computeAll (.fresh _) = (answer, later) →
      later.evaluations = later.valued.ncard + later.abandoned.ncard ∧
        later.evaluations ≤ sheet.rows * sheet.cols ∧
        (answer = .ok () → later.evaluations = sheet.rows * sheet.cols) := by
  constructor
  · intro calls cell answer later inside hcompute
    have hregular := sheet.regular_afterAll calls
    obtain ⟨hruns, hbound⟩ := hregular.evaluations_compute inside hcompute
    refine ⟨hruns, hbound, ?_⟩
    rintro value rfl
    exact hregular.evaluations_compute_of_ok inside hcompute
  · intro answer later hcompute
    have hcounted := sheet.evaluations_computeAll_fresh
    have hcomplete : (sheet.computeAll (.fresh _)).1 = .ok () →
        (sheet.computeAll (.fresh _)).2.Complete := complete_of_computeAll_eq_ok
    rw [hcompute] at hcounted hcomplete
    have hupper : later.evaluations ≤ sheet.size :=
      hcounted.trans_le later.ncard_valued_add_ncard_abandoned_le
    refine ⟨hcounted, hupper, ?_⟩
    rintro rfl
    have hall : later.valued = Set.univ := Set.eq_univ_of_forall (hcomplete rfl)
    rw [hall, Set.ncard_univ, Nat.card_fin] at hcounted
    exact Nat.le_antisymm hupper (hcounted.ge.trans' (Nat.le_add_right ..))

namespace AccountingWitness

/-- The last two cells refer to one another. -/
def ladder : Sheet :=
  ofFormulas 4 1 #v[⟨"1"⟩, ⟨"A1 ++"⟩, ⟨"D1 A1 +"⟩, ⟨"C1"⟩] (by decide)

def first : List Call := [.cell ⟨0, 0⟩ .empty]

/-- After the first cell, the second runs one formula more; a calculation of the whole ladder
runs four, two of them for cells that are left behind. -/
theorem evaluations_of_calls_ladder :
    ladder.Holds ⟨1, 0⟩ ∧
      (ladder.compute ⟨1, 0⟩ ⟨ladder.afterAll first, .empty⟩).1 = .ok 2.0 ∧
      ({place : Fin ladder.size | ladder.Reaches ⟨1, 0⟩ (ladder.address place)} \
        (ladder.afterAll first).valued).ncard = 1 ∧
      (ladder.computeAll (.fresh _)).2.valued.ncard +
        (ladder.computeAll (.fresh _)).2.abandoned.ncard = 4 := by
  obtain ⟨hcells, hall⟩ := evaluations_of_calls ladder
  have inside : ladder.Holds ⟨1, 0⟩ := by decide
  have hvalue : (ladder.compute ⟨1, 0⟩ ⟨ladder.afterAll first, .empty⟩).1 = .ok 2.0 := by
    decide +kernel
  have hruns := (hcells first ⟨1, 0⟩ _ _ inside (Prod.mk.eta).symm).2.2 2.0 hvalue
  have hbefore : (ladder.afterAll first).evaluations = 1 := by decide +kernel
  have hafter : (ladder.compute ⟨1, 0⟩ ⟨ladder.afterAll first, .empty⟩).2.progress.evaluations =
      2 := by decide +kernel
  have hcalculated := (hall _ _ (Prod.mk.eta).symm).1
  have hfour : (ladder.computeAll (.fresh _)).2.evaluations = 4 := by decide +kernel
  rw [hbefore, hafter] at hruns
  exact ⟨inside, hvalue, (Nat.add_left_cancel hruns).symm, hcalculated.symm.trans hfour⟩

end AccountingWitness

end Sheet

end PostfixSheet
