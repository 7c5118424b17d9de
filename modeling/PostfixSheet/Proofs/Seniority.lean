/-
What rosters are after any steps.

Cells are entered and left in any order, some of them refused because they are listed already,
and cells are left of which there are none.  Still the two records of a roster agree, and the
list has the cells in the order in which they were entered.  So the cell that is left is the
one that has been there for the shortest time, and the way of a circle goes from the cell that
is met again through all that were entered after it.
-/
import PostfixSheet.Trail
import Mathlib.Data.List.Induction

namespace PostfixSheet

namespace Roster

inductive Step where
  | push (cell : Address)
  | pop

def after (roster : Roster) : Step → Roster
  | .push cell => (roster.push cell).2
  | .pop => roster.pop.2

def afterAll (steps : List Step) : Roster :=
  steps.foldl after empty

/-- The cell was entered by the step at this moment, which took it for new, and it has been
listed ever since. -/
structure EnteredBy (steps : List Step) (cell : Address) (moment : Nat) : Prop where
  asked : steps[moment]? = some (.push cell)
  accepted : ((afterAll (steps.take moment)).push cell).1 = true
  stayed : ∀ later, moment < later → later ≤ steps.length →
    cell ∈ (afterAll (steps.take later)).order

def Precedes (steps : List Step) (cell other : Address) : Prop :=
  ∀ moment later, EnteredBy steps cell moment → EnteredBy steps other later → moment < later

variable {roster : Roster} {steps : List Step} {step : Step} {cell other : Address}
  {moment later : Nat}

theorem afterAll_concat (steps : List Step) (step : Step) :
    afterAll (steps ++ [step]) = (afterAll steps).after step := by
  rw [afterAll, List.foldl_append]
  rfl

theorem InStep.after (h : roster.InStep) (step : Step) : (roster.after step).InStep := by
  cases step with
  | push cell => exact h.push cell
  | pop => exact h.pop

theorem inStep_afterAll (steps : List Step) : (afterAll steps).InStep := by
  induction steps using List.reverseRecOn with
  | nil => exact inStep_empty
  | append_singleton steps step ih =>
      rw [afterAll_concat]
      exact ih.after step

theorem pop_of_order_eq_nil (h : roster.order = []) : roster.pop = (none, roster) := by
  obtain ⟨visiting, latestFirst⟩ := roster
  obtain rfl : latestFirst = [] := List.reverse_eq_nil_iff.1 h
  rfl

theorem exists_pop_of_order_ne_nil (h : roster.order ≠ []) :
    ∃ last rest, roster.pop = (some last, rest) := by
  obtain ⟨visiting, _ | ⟨last, others⟩⟩ := roster
  · exact absurd rfl h
  · exact ⟨last, _, rfl⟩

theorem InStep.after_cases (h : roster.InStep) (step : Step) :
    roster.after step = roster ∨
      (∃ cell, step = .push cell ∧ cell ∉ roster.order ∧
        (roster.after step).order = roster.order ++ [cell]) ∨
      ∃ last, step = .pop ∧ roster.order = (roster.after step).order ++ [last] := by
  cases step with
  | push cell =>
      by_cases hlisted : cell ∈ roster.visiting
      · exact Or.inl (congrArg Prod.snd (push_of_mem hlisted))
      · exact Or.inr (Or.inl ⟨cell, rfl, mt h.mem_order_iff.1 hlisted, order_push hlisted⟩)
  | pop =>
      by_cases hnone : roster.order = []
      · exact Or.inl (congrArg Prod.snd (pop_of_order_eq_nil hnone))
      · obtain ⟨last, rest, hpop⟩ := exists_pop_of_order_ne_nil hnone
        refine Or.inr (Or.inr ⟨last, rfl, ?_⟩)
        change roster.order = roster.pop.2.order ++ [last]
        rw [hpop]
        exact order_of_pop hpop

theorem EnteredBy.lt_length (h : EnteredBy steps cell moment) : moment < steps.length :=
  (List.getElem?_eq_some_iff.1 h.asked).1

theorem EnteredBy.listed (h : EnteredBy steps cell moment) : cell ∈ (afterAll steps).order := by
  have hlisted := h.stayed steps.length h.lt_length (Nat.le_refl _)
  rwa [List.take_length] at hlisted

/-- A cell that has stayed would have been refused later. -/
theorem EnteredBy.not_lt (h : EnteredBy steps cell moment) (h' : EnteredBy steps cell later) :
    ¬moment < later := by
  intro hlt
  have hlisted := h.stayed later hlt (Nat.le_of_lt h'.lt_length)
  have hnew := push_fst_iff.1 h'.accepted
  exact hnew ((inStep_afterAll _).mem_order_iff.1 hlisted)

theorem EnteredBy.unique (h : EnteredBy steps cell moment) (h' : EnteredBy steps cell later) :
    moment = later :=
  Nat.le_antisymm (Nat.not_lt.1 (h'.not_lt h)) (Nat.not_lt.1 (h.not_lt h'))

/-- One step more keeps the moment of a cell that stays. -/
theorem EnteredBy.concat (h : EnteredBy steps cell moment)
    (hstays : cell ∈ (afterAll (steps ++ [step])).order) :
    EnteredBy (steps ++ [step]) cell moment := by
  have hlt := h.lt_length
  constructor
  case asked =>
    rw [List.getElem?_append_left hlt]
    exact h.asked
  case accepted =>
    rw [List.take_append_of_le_length (Nat.le_of_lt hlt)]
    exact h.accepted
  case stayed =>
    intro later hlater hle
    by_cases hlast : later ≤ steps.length
    · rw [List.take_append_of_le_length hlast]
      exact h.stayed later hlater hlast
    · rw [List.take_of_length_le (by simp; omega)]
      exact hstays

/-- A new cell is entered by the last step. -/
theorem enteredBy_concat_push (h : cell ∉ (afterAll steps).order) :
    EnteredBy (steps ++ [.push cell]) cell steps.length := by
  have hnew : cell ∉ (afterAll steps).visiting := mt (inStep_afterAll steps).mem_order_iff.2 h
  constructor
  case asked => rw [List.getElem?_concat_length]
  case accepted =>
    rw [List.take_left]
    exact push_fst_iff.2 hnew
  case stayed =>
    intro later hlater hle
    rw [List.take_of_length_le (by simp; omega), afterAll_concat, after, order_push hnew]
    exact List.mem_append_right _ (List.mem_singleton_self cell)

/-- A cell that was listed one step ago was entered before. -/
theorem EnteredBy.of_concat (h : EnteredBy (steps ++ [step]) cell moment)
    (hlisted : cell ∈ (afterAll steps).order) : EnteredBy steps cell moment := by
  have hlt : moment < steps.length := by
    have hle := h.lt_length
    rw [List.length_append, List.length_singleton] at hle
    refine Nat.lt_of_le_of_ne (Nat.le_of_lt_succ hle) fun hlast => ?_
    have haccepted := h.accepted
    rw [hlast, List.take_left] at haccepted
    exact push_fst_iff.1 haccepted ((inStep_afterAll steps).mem_order_iff.1 hlisted)
  constructor
  case asked =>
    rw [← List.getElem?_append_left hlt]
    exact h.asked
  case accepted =>
    rw [← List.take_append_of_le_length (Nat.le_of_lt hlt)]
    exact h.accepted
  case stayed =>
    intro later hlater hle
    rw [← List.take_append_of_le_length hle]
    exact h.stayed later hlater (Nat.le_trans hle (by simp))

/-- Every listed cell was entered at some moment and has stayed. -/
theorem exists_enteredBy (h : cell ∈ (afterAll steps).order) :
    ∃ moment, EnteredBy steps cell moment := by
  induction steps using List.reverseRecOn with
  | nil => cases h
  | append_singleton steps step ih =>
      by_cases hold : cell ∈ (afterAll steps).order
      · obtain ⟨moment, hentered⟩ := ih hold
        exact ⟨moment, hentered.concat h⟩
      · -- a cell that was not there before can only have come with the last step
        rw [afterAll_concat] at h
        rcases (inStep_afterAll steps).after_cases step with
          hsame | ⟨new, rfl, -, hlonger⟩ | ⟨last, -, hshorter⟩
        · exact absurd (hsame ▸ h) hold
        · rw [hlonger, List.mem_append, List.mem_singleton] at h
          obtain rfl := h.resolve_left hold
          exact ⟨_, enteredBy_concat_push hold⟩
        · exact absurd (hshorter ▸ List.mem_append_left _ h) hold

theorem Precedes.concat (h : Precedes steps cell other) (hcell : cell ∈ (afterAll steps).order)
    (hother : other ∈ (afterAll steps).order) : Precedes (steps ++ [step]) cell other :=
  fun moment later hmoment hlater =>
    h moment later (hmoment.of_concat hcell) (hlater.of_concat hother)

/-- A cell that is entered last comes after those that were there. -/
theorem precedes_concat_push (hnew : cell ∉ (afterAll steps).order)
    (hother : other ∈ (afterAll steps).order) : Precedes (steps ++ [.push cell]) other cell := by
  intro moment later hmoment hlater
  rw [hlater.unique (enteredBy_concat_push hnew)]
  exact (hmoment.of_concat hother).lt_length

/-- The list has the cells in the order of their entry. -/
theorem pairwise_precedes (steps : List Step) :
    (afterAll steps).order.Pairwise (Precedes steps) := by
  induction steps using List.reverseRecOn with
  | nil => exact .nil
  | append_singleton steps step ih =>
      -- the cells that were there keep their moments, even if the last of them leaves
      have hkept : (afterAll steps).order.Pairwise (Precedes (steps ++ [step])) :=
        ih.imp_of_mem fun hcell hother h => h.concat hcell hother
      rw [afterAll_concat]
      rcases (inStep_afterAll steps).after_cases step with
        hsame | ⟨new, rfl, hnew, hlonger⟩ | ⟨last, -, hshorter⟩
      · rw [hsame]
        exact hkept
      · rw [hlonger, List.pairwise_append]
        refine ⟨hkept, List.pairwise_singleton _ _, ?_⟩
        intro other hother cell hcell
        rw [List.mem_singleton.1 hcell]
        exact precedes_concat_push hnew hother
      · rw [hshorter] at hkept
        exact (List.pairwise_append.1 hkept).1

/-- The cell at the end of the list is the latest one. -/
theorem latest_of_order_eq {before : List Address} (h : (afterAll steps).order = before ++ [cell])
    (hcell : EnteredBy steps cell moment) (hother : EnteredBy steps other later) :
    later ≤ moment := by
  have hlisted := hother.listed
  rw [h, List.mem_append, List.mem_singleton] at hlisted
  rcases hlisted with hbefore | rfl
  · have hsorted := h ▸ pairwise_precedes steps
    have hprecedes := (List.pairwise_append.1 hsorted).2.2 other hbefore cell
      (List.mem_singleton_self cell)
    exact Nat.le_of_lt (hprecedes later moment hother hcell)
  · exact Nat.le_of_eq (hother.unique hcell)

/-- A roster is a set of cells in the order of their entry, by the steps that have led to it.
Its set and its list agree, and every operation goes by both as by one. -/
structure InsertionOrdered (steps : List Step) (roster : Roster) : Prop where
  nodup : roster.order.Nodup
  same_cells : ∀ cell, cell ∈ roster.visiting ↔ cell ∈ roster.order
  entered : ∀ cell, cell ∈ roster.order ↔ ∃ moment, EnteredBy steps cell moment
  sorted : roster.order.Pairwise (Precedes steps)
  contains : ∀ cell, roster.contains cell = true ↔ cell ∈ roster.order
  refused : ∀ cell, (roster.push cell).1 = false ↔ cell ∈ roster.order
  push_listed : ∀ cell ∈ roster.order, (roster.push cell).2 = roster
  /-- A new cell comes last, and the next step back restores the roster. -/
  push_new : ∀ cell, cell ∉ roster.order → ∃ longer, roster.push cell = (true, longer) ∧
    longer.order = roster.order ++ [cell] ∧ longer.pop = (some cell, roster)
  pop_nil : roster.order = [] → roster.pop = (none, roster)
  /-- The cell that is left is the one that was entered last of those that have stayed. -/
  pop_latest : roster.order ≠ [] → ∃ last rest moment, roster.pop = (some last, rest) ∧
    roster.order = rest.order ++ [last] ∧ EnteredBy steps last moment ∧
    ∀ other earlier, EnteredBy steps other earlier → earlier ≤ moment
  /-- The way of a circle starts at its cell, which is on the list once. -/
  circle_listed : ∀ cell ∈ roster.order, ∃ above below,
    roster.order = above ++ cell :: below ∧
    roster.circleThrough? cell = some (cell :: below ++ [cell])
  circle_new : ∀ cell, cell ∉ roster.order →
    roster.circleThrough? cell = some (roster.order ++ [cell])

/-- After any steps, with refused cells and steps back from nothing among them, a roster is a
set in the order of entry. -/
theorem insertionOrdered_afterAll (steps : List Step) :
    InsertionOrdered steps (afterAll steps) := by
  have hinStep := inStep_afterAll steps
  have hlisted : ∀ cell, cell ∈ (afterAll steps).order ↔ cell ∈ (afterAll steps).visiting :=
    fun cell => hinStep.mem_order_iff
  constructor
  case nodup => exact hinStep.nodup_order
  case same_cells => exact fun cell => (hlisted cell).symm
  case entered =>
    intro cell
    constructor
    · exact exists_enteredBy
    · rintro ⟨moment, hentered⟩
      exact hentered.listed
  case sorted => exact pairwise_precedes steps
  case contains => exact fun cell => Std.ExtTreeSet.contains_iff_mem.trans (hlisted cell).symm
  case refused =>
    intro cell
    rw [← Bool.not_eq_true, push_fst_iff, Decidable.not_not, hlisted]
  case push_listed =>
    intro cell hcell
    rw [push_of_mem ((hlisted cell).1 hcell)]
  case push_new =>
    intro cell hcell
    have hnew := mt (hlisted cell).2 hcell
    refine ⟨((afterAll steps).push cell).2, ?_, order_push hnew, pop_push hnew⟩
    exact Prod.ext (push_fst_iff.2 hnew) rfl
  case pop_nil => exact pop_of_order_eq_nil
  case pop_latest =>
    intro hsome
    obtain ⟨last, rest, hpop⟩ := exists_pop_of_order_ne_nil hsome
    have horder := order_of_pop hpop
    have hlast : last ∈ (afterAll steps).order :=
      horder ▸ List.mem_append_right _ (List.mem_singleton_self last)
    obtain ⟨moment, hentered⟩ := exists_enteredBy hlast
    exact ⟨last, rest, moment, hpop, horder, hentered,
      fun other earlier hother => latest_of_order_eq horder hentered hother⟩
  case circle_listed =>
    intro cell hcell
    obtain ⟨above, below, hsplit, hnew⟩ := List.eq_append_cons_of_mem hcell
    exact ⟨above, below, hsplit, circleThrough?_of_split hsplit hnew⟩
  case circle_new => exact fun cell => circleThrough?_of_not_mem

/-- A cell is refused, one is left and entered again, and there are steps back from nothing. -/
example :
    (afterAll [.pop, .push ⟨1, 0⟩, .push ⟨0, 0⟩, .push ⟨1, 0⟩, .pop, .push ⟨2, 5⟩,
      .push ⟨0, 0⟩]).order = [⟨1, 0⟩, ⟨2, 5⟩, ⟨0, 0⟩] := by
  decide

/-- The cell that has been left can be entered again, and then nothing has changed. -/
theorem push_of_pop {rest : Roster} (h : roster.InStep) (hpop : roster.pop = (some cell, rest)) :
    rest.push cell = (true, roster) := by
  have hleft : roster.pop.2 = rest := congrArg Prod.snd hpop
  have hrest : rest.InStep := hleft ▸ h.pop
  have horder : cell :: rest.latestFirst = roster.latestFirst := by
    rw [← List.reverse_inj, List.reverse_cons]
    exact (order_of_pop hpop).symm
  have hnew : cell ∉ rest.visiting := by
    rw [hrest.mem_visiting]
    exact (List.nodup_cons.1 (horder ▸ h.nodup)).1
  rw [push_of_not_mem hnew]
  refine Prod.ext rfl (eq_of_same_cells (fun other => ?_) horder)
  rw [mem_insert, hrest.mem_visiting, h.mem_visiting, ← horder, List.mem_cons, eq_comm]

/-- A roster whose records agree comes about when its cells are entered one by one. -/
theorem afterAll_pushes (h : roster.InStep) : afterAll (roster.order.map .push) = roster := by
  obtain ⟨visiting, latestFirst⟩ := roster
  induction latestFirst generalizing visiting with
  | nil =>
      refine eq_of_same_cells (fun cell => ?_) rfl
      exact (inStep_empty.mem_visiting cell).trans (h.mem_visiting cell).symm
  | cons cell rest ih =>
      have hpop : pop ⟨visiting, cell :: rest⟩ = (some cell, ⟨visiting.erase cell, rest⟩) := rfl
      rw [order_of_pop hpop, List.map_append, List.map_singleton, afterAll_concat, ih _ h.pop]
      exact congrArg Prod.snd (push_of_pop h hpop)

/-- Trails are the rosters to which steps lead. -/
theorem exists_trail_iff : (∃ trail : Trail, trail.toRoster = roster) ↔
    ∃ steps, afterAll steps = roster := by
  constructor
  · rintro ⟨trail, rfl⟩
    exact ⟨_, afterAll_pushes trail.inStep⟩
  · rintro ⟨steps, rfl⟩
    exact ⟨⟨_, inStep_afterAll steps⟩, rfl⟩

end Roster

end PostfixSheet
