/-
Rosters: the cells under evaluation, noted down twice.

A set tells whether a cell is under evaluation, and a list tells in which order
the cells were entered.  Entering a cell changes both and so does leaving one.
That keeps them in step: the list names the cells of the set, each of them once.
-/
import PostfixSheet.Address
import Std.Data.ExtTreeSet.Lemmas

namespace PostfixSheet

namespace Address

/-- Cells are compared by their rows, and in one row by their columns. -/
def rowMajor : Address → Address → Ordering :=
  compareLex (compareOn row) (compareOn col)

instance : Std.TransCmp rowMajor :=
  inferInstanceAs (Std.TransCmp (compareLex (compareOn row) (compareOn col)))

instance : Std.LawfulEqCmp rowMajor where
  eq_of_compare {cell other} h := by
    obtain ⟨hrow, hcol⟩ := compareLex_eq_eq.1 h
    have hrow : cell.row = other.row := Std.LawfulEqCmp.eq_of_compare hrow
    have hcol : cell.col = other.col := Std.LawfulEqCmp.eq_of_compare hcol
    cases cell
    cases other
    simp_all

end Address

/-- The cells under evaluation.  The set is asked for a cell; the list has the
latest cell in front, where cells come and go. -/
structure Roster where
  visiting : Std.ExtTreeSet Address Address.rowMajor
  latestFirst : List Address

namespace Roster

variable {roster : Roster} {cells : Std.ExtTreeSet Address Address.rowMajor}
  {cell other : Address}

def empty : Roster := ⟨∅, []⟩

def order (roster : Roster) : List Address :=
  roster.latestFirst.reverse

def contains (roster : Roster) (cell : Address) : Bool :=
  roster.visiting.contains cell

/-- Enters a cell, and tells whether it is new.  A cell that is in the set already
is not listed again. -/
def push (roster : Roster) (cell : Address) : Bool × Roster :=
  match roster.visiting.containsThenInsert cell with
  | (true, visiting) => (false, ⟨visiting, roster.latestFirst⟩)
  | (false, visiting) => (true, ⟨visiting, cell :: roster.latestFirst⟩)

/-- Leaves the cell that was entered last, and tells which one it was. -/
def pop : Roster → Option Address × Roster
  | ⟨visiting, []⟩ => (none, ⟨visiting, []⟩)
  | ⟨visiting, cell :: rest⟩ => (some cell, ⟨visiting.erase cell, rest⟩)

/-- The place of a cell in the list; the first place for a cell that is not
listed. -/
def placeOf (roster : Roster) (cell : Address) : Nat :=
  (roster.order.idxOf? cell).getD 0

/-- The listed cells from a place on; nothing for a place past the end of the list. -/
def startingAt? (roster : Roster) (place : Nat) : Option (List Address) :=
  if place ≤ roster.order.length then some (roster.order.drop place) else none

/-- The way from the place of a cell to the end of the list and back to that cell. -/
def circleThrough? (roster : Roster) (cell : Address) : Option (List Address) :=
  (roster.startingAt? (roster.placeOf cell)).map (· ++ [cell])

/-- The set and the list agree. -/
structure InStep (roster : Roster) : Prop where
  nodup : roster.latestFirst.Nodup
  mem_visiting : ∀ cell, cell ∈ roster.visiting ↔ cell ∈ roster.latestFirst

theorem InStep.mem_order_iff (h : roster.InStep) : cell ∈ roster.order ↔ cell ∈ roster.visiting :=
  List.mem_reverse.trans (h.mem_visiting cell).symm

theorem InStep.nodup_order (h : roster.InStep) : roster.order.Nodup :=
  List.pairwise_reverse.2 (h.nodup.imp Ne.symm)

/-- Sets with the same cells are equal, so a roster is told by its cells and their
order. -/
theorem eq_of_same_cells {first second : Roster}
    (hcells : ∀ cell, cell ∈ first.visiting ↔ cell ∈ second.visiting)
    (horder : first.latestFirst = second.latestFirst) : first = second := by
  obtain ⟨visiting, latestFirst⟩ := first
  obtain ⟨visiting', latestFirst'⟩ := second
  obtain rfl : visiting = visiting' := Std.ExtTreeSet.ext_mem hcells
  exact congrArg (Roster.mk visiting) horder

theorem mem_insert : other ∈ cells.insert cell ↔ cell = other ∨ other ∈ cells := by
  rw [Std.ExtTreeSet.mem_insert, Std.LawfulEqCmp.compare_eq_iff_eq]

theorem mem_erase : other ∈ cells.erase cell ↔ cell ≠ other ∧ other ∈ cells := by
  rw [Std.ExtTreeSet.mem_erase, Ne, Std.LawfulEqCmp.compare_eq_iff_eq]

/-- A cell in the set is refused, and nothing changes. -/
theorem push_of_mem (h : cell ∈ roster.visiting) : roster.push cell = (false, roster) := by
  have hsame : roster.visiting.insert cell = roster.visiting := by
    refine Std.ExtTreeSet.ext_mem fun other => ?_
    rw [mem_insert]
    exact or_iff_right_of_imp fun hcell => hcell ▸ h
  have hfound : roster.visiting.containsThenInsert cell = (true, roster.visiting) :=
    Prod.ext (Std.ExtTreeSet.containsThenInsert_fst.trans (Std.ExtTreeSet.contains_iff_mem.2 h))
      (Std.ExtTreeSet.containsThenInsert_snd.trans hsame)
  rw [push, hfound]

/-- A cell that is not in the set comes into it and to the list. -/
theorem push_of_not_mem (h : cell ∉ roster.visiting) :
    roster.push cell =
      (true, ⟨roster.visiting.insert cell, cell :: roster.latestFirst⟩) := by
  have hmissing : roster.visiting.contains cell = false :=
    Bool.eq_false_iff.2 fun hfound => h (Std.ExtTreeSet.contains_iff_mem.1 hfound)
  have hnew : roster.visiting.containsThenInsert cell =
      (false, roster.visiting.insert cell) :=
    Prod.ext (Std.ExtTreeSet.containsThenInsert_fst.trans hmissing)
      Std.ExtTreeSet.containsThenInsert_snd
  rw [push, hnew]

theorem order_push (h : cell ∉ roster.visiting) :
    (roster.push cell).2.order = roster.order ++ [cell] := by
  rw [push_of_not_mem h]
  exact List.reverse_cons

theorem order_of_pop {rest : Roster} (h : roster.pop = (some cell, rest)) :
    roster.order = rest.order ++ [cell] := by
  obtain ⟨visiting, _ | ⟨last, others⟩⟩ := roster
  · cases h
  · cases h
    exact List.reverse_cons

theorem push_fst_iff : (roster.push cell).1 = true ↔ cell ∉ roster.visiting := by
  by_cases h : cell ∈ roster.visiting
  · simp [push_of_mem h, h]
  · simp [push_of_not_mem h, h]

/-- A new cell is left again by the next step back. -/
theorem pop_push (h : cell ∉ roster.visiting) :
    (roster.push cell).2.pop = (some cell, roster) := by
  rw [push_of_not_mem h]
  refine Prod.ext rfl (eq_of_same_cells (fun other => ?_) rfl)
  change other ∈ (roster.visiting.insert cell).erase cell ↔ other ∈ roster.visiting
  rw [mem_erase, mem_insert]
  constructor
  · rintro ⟨hother, hcell | hold⟩
    · exact absurd hcell hother
    · exact hold
  · intro hold
    exact ⟨fun hcell => h (hcell ▸ hold), Or.inr hold⟩

theorem inStep_empty : empty.InStep where
  nodup := List.nodup_nil
  mem_visiting _ := iff_of_false Std.ExtTreeSet.not_mem_empty List.not_mem_nil

theorem InStep.push (h : roster.InStep) (cell : Address) : (roster.push cell).2.InStep := by
  by_cases hlisted : cell ∈ roster.visiting
  · rw [push_of_mem hlisted]
    exact h
  · rw [push_of_not_mem hlisted]
    constructor
    case nodup =>
      have hnew : cell ∉ roster.latestFirst := fun hold => hlisted ((h.mem_visiting cell).2 hold)
      exact List.nodup_cons.2 ⟨hnew, h.nodup⟩
    case mem_visiting =>
      intro other
      rw [mem_insert, h.mem_visiting, List.mem_cons, eq_comm]

theorem InStep.pop (h : roster.InStep) : roster.pop.2.InStep := by
  obtain ⟨visiting, _ | ⟨cell, rest⟩⟩ := roster
  · exact h
  · obtain ⟨hcell, hrest⟩ := List.nodup_cons.1 h.nodup
    constructor
    case nodup => exact hrest
    case mem_visiting =>
      intro other
      change other ∈ visiting.erase cell ↔ other ∈ rest
      rw [mem_erase, h.mem_visiting other, List.mem_cons]
      constructor
      · rintro ⟨hother, hsame | hold⟩
        · exact absurd hsame.symm hother
        · exact hold
      · intro hold
        exact ⟨fun hsame => hcell (hsame ▸ hold), Or.inr hold⟩

/-- The place of a cell is never past the end of the list. -/
theorem placeOf_le (roster : Roster) (cell : Address) :
    roster.placeOf cell ≤ roster.order.length := by
  unfold placeOf
  cases hplace : roster.order.idxOf? cell with
  | none => exact Nat.zero_le _
  | some place => exact Nat.le_of_lt (List.idxOf?_eq_some_iff.1 hplace).1

theorem circleThrough?_eq (roster : Roster) (cell : Address) :
    roster.circleThrough? cell =
      some (roster.order.drop (roster.placeOf cell) ++ [cell]) := by
  rw [circleThrough?, startingAt?, if_pos (roster.placeOf_le cell), Option.map_some]

/-- From a cell that is not listed the way is the whole list. -/
theorem circleThrough?_of_not_mem (h : cell ∉ roster.order) :
    roster.circleThrough? cell = some (roster.order ++ [cell]) := by
  rw [circleThrough?_eq, placeOf, List.idxOf?_eq_none_iff.2 h, Option.getD_none, List.drop_zero]

/-- From a listed cell the way is the list from that cell on. -/
theorem circleThrough?_of_split {above below : List Address}
    (h : roster.order = above ++ cell :: below) (hnew : cell ∉ above) :
    roster.circleThrough? cell = some (cell :: below ++ [cell]) := by
  have hplace : roster.order.idxOf? cell = some above.length := by
    rw [List.idxOf?_eq_some_iff, h]
    refine ⟨by simp, by simp, fun earlier hearlier => ?_⟩
    rw [List.getElem_append_left hearlier]
    exact fun hsame => hnew (hsame ▸ List.getElem_mem hearlier)
  rw [circleThrough?_eq, placeOf, hplace, Option.getD_some, h, List.drop_left]

end Roster

end PostfixSheet
