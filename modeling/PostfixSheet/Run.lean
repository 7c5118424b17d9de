/-
The state of a running evaluation, and why it comes to an end.

A run is the progress made so far together with the trail of cells under
evaluation.  A cell is guarded while it is on the trail with its formula entered;
it cannot be entered again then.  Entering a cell guards one cell more, and a cell
is unguarded again only when another one gets its value.  `rank` counts both: the
cells without a value weigh more than all guards together.
-/
import PostfixSheet.Progress

namespace PostfixSheet

/-- Progress on a sheet, and the cells under evaluation. -/
structure Run (sheet : Sheet) where
  progress : Progress sheet.size
  trail : Trail

namespace Run

variable {sheet : Sheet}

/-- The cell in this place has its value. -/
def Done (run : Run sheet) (place : Fin sheet.size) : Prop :=
  (run.progress.mark place).isDone = true

instance (run : Run sheet) (place : Fin sheet.size) : Decidable (run.Done place) :=
  inferInstanceAs (Decidable (_ = true))

theorem not_done_of_value?_eq_none {run : Run sheet} {place : Fin sheet.size}
    (h : (run.progress.mark place).value? = none) : ¬run.Done place := by
  unfold Done
  cases hknown : run.progress.mark place <;> simp_all [Mark.value?, Mark.isDone]

/-- The formula of the cell has been entered and the cell is on the trail. -/
def Guarded (run : Run sheet) (place : Fin sheet.size) : Prop :=
  run.progress.mark place = .started ∧ sheet.address place ∈ run.trail

instance (run : Run sheet) (place : Fin sheet.size) : Decidable (run.Guarded place) :=
  inferInstanceAs (Decidable (_ ∧ _))

def enter (run : Run sheet) (place : Fin sheet.size) (cell : Address) : Run sheet :=
  ⟨run.progress.start place, run.trail.push cell⟩

def follow (run : Run sheet) (place : Fin sheet.size) (reference : String) : Run sheet :=
  ⟨run.progress.follow place reference, run.trail⟩

/-- Keeps the value of a cell and leaves the cell that was entered last. -/
def finish (run : Run sheet) (place : Fin sheet.size) (value : Float) : Run sheet :=
  ⟨run.progress.finish place value, run.trail.pop⟩

def pendingCount (run : Run sheet) : Nat :=
  (List.finRange sheet.size).countP fun place => ¬run.Done place

def openCount (run : Run sheet) : Nat :=
  (List.finRange sheet.size).countP fun place => ¬run.Done place ∧ ¬run.Guarded place

/-- What an evaluation uses up. -/
def rank (run : Run sheet) : Nat :=
  run.pendingCount * (sheet.size + 1) + run.openCount

/-- One run comes after another: cells with a value keep having one, and the rank
has not grown. -/
def Leads (earlier later : Run sheet) : Prop :=
  (∀ place, earlier.Done place → later.Done place) ∧ later.rank ≤ earlier.rank

theorem Leads.refl (run : Run sheet) : run.Leads run :=
  ⟨fun _ h => h, Nat.le_refl _⟩

theorem Leads.trans {first second third : Run sheet} (h : first.Leads second)
    (h' : second.Leads third) : first.Leads third :=
  ⟨fun place hdone => h'.1 place (h.1 place hdone), Nat.le_trans h'.2 h.2⟩

/-- A count falls when one element drops out and none comes in. -/
theorem countP_lt_countP {α : Type} {p q : α → Bool} {xs : List α}
    (hsub : ∀ x ∈ xs, p x = true → q x = true) {x : α} (hmem : x ∈ xs)
    (hq : q x = true) (hp : p x = false) : xs.countP p < xs.countP q := by
  induction xs with
  | nil => cases hmem
  | cons y ys ih =>
    have htail : ys.countP p ≤ ys.countP q :=
      List.countP_mono_left fun z hz => hsub z (List.mem_cons_of_mem y hz)
    rcases List.mem_cons.1 hmem with rfl | hmem
    · rw [List.countP_cons_of_pos hq, List.countP_cons_of_neg (by simp [hp])]
      omega
    · have hsmaller := ih (fun z hz => hsub z (List.mem_cons_of_mem y hz)) hmem
      by_cases hy : p y = true
      · rw [List.countP_cons_of_pos hy,
          List.countP_cons_of_pos (hsub y List.mem_cons_self hy)]
        omega
      · rw [List.countP_cons_of_neg hy, List.countP_cons]
        omega

theorem openCount_le (run : Run sheet) : run.openCount ≤ sheet.size :=
  Nat.le_trans List.countP_le_length (by simp)

theorem done_enter {run : Run sheet} {place : Fin sheet.size} {cell : Address}
    (hpending : ¬run.Done place) (other : Fin sheet.size) :
    (run.enter place cell).Done other ↔ run.Done other := by
  by_cases h : place = other
  · subst h
    simpa [Done, enter, Mark.isDone] using hpending
  · simp [Done, enter, h]

theorem guarded_enter {run : Run sheet} {place : Fin sheet.size} (other : Fin sheet.size) :
    (run.enter place (sheet.address place)).Guarded other ↔
      other = place ∨ run.Guarded other := by
  by_cases h : place = other
  · subst h
    simp [Guarded, enter, Trail.mem_push]
  · have haddresses : sheet.address other ≠ sheet.address place := by
      intro hsame
      apply h
      rw [← sheet.index_address place, ← sheet.index_address other]
      simp [hsame]
    simp [Guarded, enter, Trail.mem_push, h, haddresses, Ne.symm h]

/-- Entering a cell that is neither done nor guarded lowers the rank. -/
theorem rank_enter_lt {run : Run sheet} {place : Fin sheet.size}
    (hpending : ¬run.Done place) (hfree : ¬run.Guarded place) :
    (run.enter place (sheet.address place)).rank < run.rank := by
  have hsame : (run.enter place (sheet.address place)).pendingCount = run.pendingCount := by
    simp [pendingCount, done_enter hpending]
  have hfewer : (run.enter place (sheet.address place)).openCount < run.openCount := by
    apply countP_lt_countP (x := place)
    · intro other _ h
      simp only [done_enter hpending, guarded_enter, not_or, decide_eq_true_eq] at h ⊢
      exact ⟨h.1, h.2.2⟩
    · exact List.mem_finRange place
    · simp [hpending, hfree]
    · simp [guarded_enter]
  unfold rank
  rw [hsame]
  exact Nat.add_lt_add_left hfewer _

theorem leads_enter {run : Run sheet} {place : Fin sheet.size}
    (hpending : ¬run.Done place) (hfree : ¬run.Guarded place) :
    run.Leads (run.enter place (sheet.address place)) :=
  ⟨fun other hdone => (done_enter hpending other).2 hdone,
    Nat.le_of_lt (rank_enter_lt hpending hfree)⟩

theorem leads_follow (run : Run sheet) (place : Fin sheet.size) (reference : String) :
    run.Leads (run.follow place reference) := by
  refine ⟨fun other hdone => ?_, Nat.le_of_eq ?_⟩
  · simpa [Done, follow] using hdone
  · simp [rank, pendingCount, openCount, Done, Guarded, follow]

/-- A new value outweighs every guard that is lost with it. -/
theorem leads_finish {earlier later : Run sheet} {place : Fin sheet.size}
    (hleads : earlier.Leads later) (hpending : ¬earlier.Done place) (value : Float) :
    earlier.Leads (later.finish place value) := by
  have hkeeps : ∀ other, later.Done other → (later.finish place value).Done other := by
    intro other hdone
    by_cases h : place = other
    · simp [Done, finish, h, Mark.isDone]
    · simpa [Done, finish, h] using hdone
  have hgains : (later.finish place value).Done place := by
    simp [Done, finish, Mark.isDone]
  refine ⟨fun other hdone => hkeeps other (hleads.1 other hdone), ?_⟩
  have hfewer : (later.finish place value).pendingCount < earlier.pendingCount := by
    apply countP_lt_countP (x := place)
    · intro other _ h
      simp only [decide_eq_true_eq] at h ⊢
      exact fun hdone => h (hkeeps other (hleads.1 other hdone))
    · exact List.mem_finRange place
    · simpa using hpending
    · simpa using hgains
  have hbound := (later.finish place value).openCount_le
  have hscaled := Nat.mul_le_mul_right (sheet.size + 1) (Nat.succ_le_of_lt hfewer)
  rw [Nat.succ_mul] at hscaled
  unfold rank
  omega

end Run

end PostfixSheet
