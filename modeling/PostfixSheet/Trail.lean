/-
Trails: the cells under evaluation, each entered from the one before it.

A trail lists every cell at most once, in the order of entry.  A cell that is
met again while it is on the trail closes a circle.
-/
import PostfixSheet.Roster

namespace PostfixSheet

/-- The cells under evaluation, with a set and a list that agree. -/
structure Trail extends Roster where
  inStep : toRoster.InStep

namespace Trail

def empty : Trail := ⟨.empty, Roster.inStep_empty⟩

def toList (trail : Trail) : List Address :=
  trail.latestFirst.reverse

instance : Membership Address Trail where
  mem trail cell := cell ∈ trail.visiting

instance (cell : Address) (trail : Trail) : Decidable (cell ∈ trail) :=
  decidable_of_iff (trail.contains cell = true) Std.ExtTreeSet.contains_iff_mem

/-- Enters a cell, unless it is listed already. -/
def push? (trail : Trail) (cell : Address) : Option Trail :=
  let pushed := trail.toRoster.push cell
  if pushed.1 then some ⟨pushed.2, trail.inStep.push cell⟩ else none

/-- Enters a cell; a cell that is listed already keeps its place. -/
def push (trail : Trail) (cell : Address) : Trail :=
  (trail.push? cell).getD trail

def pop? (trail : Trail) : Option (Address × Trail) :=
  let popped := trail.toRoster.pop
  popped.1.map fun cell => (cell, ⟨popped.2, trail.inStep.pop⟩)

/-- The trail without the cell that was entered last. -/
def pop (trail : Trail) : Trail :=
  match trail.pop? with
  | some (_, rest) => rest
  | none => trail

def last? (trail : Trail) : Option Address :=
  trail.latestFirst.head?

def length (trail : Trail) : Nat :=
  trail.latestFirst.length

/-- The way from a cell on the trail to the end of the trail and back to that
cell.  For a cell off the trail the way starts where the trail does. -/
def circleThrough (trail : Trail) (cell : Address) : List Address :=
  (trail.circleThrough? cell).get (by rw [Roster.circleThrough?_eq, Option.isSome_some])

/-- A way is cut off just before the first place of a cell. -/
theorem dropWhile_append_cons {above below : List Address} {cell : Address}
    (h : cell ∉ above) :
    (above ++ cell :: below).dropWhile (· ≠ cell) = cell :: below := by
  have hskip : ∀ other ∈ above, decide (other ≠ cell) = true := by
    intro other hother
    exact decide_eq_true fun hsame => h (hsame ▸ hother)
  rw [List.dropWhile_append_of_pos hskip, List.dropWhile_cons_of_neg (by simp)]

@[simp] theorem toList_empty : empty.toList = [] := rfl

@[simp] theorem not_mem_empty (cell : Address) : cell ∉ empty :=
  Std.ExtTreeSet.not_mem_empty

/-- The set and the list hold the same cells. -/
theorem mem_latestFirst {trail : Trail} {cell : Address} :
    cell ∈ trail.latestFirst ↔ cell ∈ trail :=
  (trail.inStep.mem_visiting cell).symm

@[simp] theorem mem_toList {trail : Trail} {cell : Address} :
    cell ∈ trail.toList ↔ cell ∈ trail :=
  trail.inStep.mem_order_iff

theorem nodup (trail : Trail) : trail.latestFirst.Nodup :=
  trail.inStep.nodup

theorem nodup_toList (trail : Trail) : trail.toList.Nodup :=
  trail.inStep.nodup_order

@[simp] theorem length_toList (trail : Trail) : trail.toList.length = trail.length :=
  List.length_reverse

theorem eq_of_toRoster {first second : Trail} (h : first.toRoster = second.toRoster) :
    first = second := by
  cases first
  cases second
  cases h
  rfl

theorem push?_eq_none_iff {trail : Trail} {cell : Address} :
    trail.push? cell = none ↔ cell ∈ trail := by
  simp only [push?]
  split
  · rename_i hnew
    exact ⟨fun h => by contradiction, fun hlisted => absurd hlisted (Roster.push_fst_iff.1 hnew)⟩
  · rename_i hlisted
    exact ⟨fun _ => Decidable.not_not.1 (mt Roster.push_fst_iff.2 hlisted), fun _ => rfl⟩

/-- Entering a cell on a trail enters it in the set and in the list. -/
theorem toRoster_push (trail : Trail) (cell : Address) :
    (trail.push cell).toRoster = (trail.toRoster.push cell).2 := by
  simp only [push, push?]
  split
  · rfl
  · rename_i hlisted
    have hmem : cell ∈ trail.visiting := Decidable.not_not.1 (mt Roster.push_fst_iff.2 hlisted)
    rw [Roster.push_of_mem hmem, Option.getD_none]

theorem toRoster_pop (trail : Trail) : trail.pop.toRoster = trail.toRoster.pop.2 := by
  obtain ⟨⟨visiting, _ | ⟨cell, rest⟩⟩, hinStep⟩ := trail <;> rfl

@[simp] theorem getLast?_toList (trail : Trail) : trail.toList.getLast? = trail.last? :=
  List.getLast?_reverse

theorem mem_of_last? {trail : Trail} {cell : Address} (h : trail.last? = some cell) :
    cell ∈ trail :=
  mem_latestFirst.1 (List.mem_of_mem_head? h)

theorem exists_last?_of_mem {trail : Trail} {cell : Address} (h : cell ∈ trail) :
    ∃ last, trail.last? = some last :=
  Option.isSome_iff_exists.1
    (List.isSome_head?.2 (List.ne_nil_of_mem (mem_latestFirst.2 h)))

theorem push_of_mem {trail : Trail} {cell : Address} (h : cell ∈ trail) :
    trail.push cell = trail :=
  eq_of_toRoster ((toRoster_push trail cell).trans (congrArg Prod.snd (Roster.push_of_mem h)))

theorem toList_push {trail : Trail} {cell : Address} (h : cell ∉ trail) :
    (trail.push cell).toList = trail.toList ++ [cell] := by
  rw [toList, toRoster_push]
  exact Roster.order_push h

theorem latestFirst_push {trail : Trail} {cell : Address} (h : cell ∉ trail) :
    (trail.push cell).latestFirst = cell :: trail.latestFirst :=
  List.reverse_inj.1 ((toList_push h).trans List.reverse_cons.symm)

theorem latestFirst_pop (trail : Trail) : trail.pop.latestFirst = trail.latestFirst.tail := by
  obtain ⟨⟨visiting, _ | ⟨cell, rest⟩⟩, hinStep⟩ := trail <;> rfl

theorem last?_push {trail : Trail} {cell : Address} (h : cell ∉ trail) :
    (trail.push cell).last? = some cell := by
  rw [← getLast?_toList, toList_push h, List.getLast?_concat]

/-- Leaving a cell undoes its entry. -/
theorem pop_push {trail : Trail} {cell : Address} (h : cell ∉ trail) :
    (trail.push cell).pop = trail := by
  apply eq_of_toRoster
  rw [toRoster_pop, toRoster_push, Roster.pop_push h]

theorem mem_push {trail : Trail} {cell other : Address} :
    other ∈ trail.push cell ↔ other = cell ∨ other ∈ trail := by
  by_cases h : cell ∈ trail
  · rw [push_of_mem h]
    exact (or_iff_right_of_imp fun hsame => hsame ▸ h).symm
  · rw [← mem_toList, toList_push h, List.mem_append, List.mem_singleton, mem_toList, or_comm]

/-- The way of a circle is the trail without what comes before the cell; from a
cell off the trail it is the whole trail. -/
theorem circleThrough_eq (trail : Trail) (cell : Address) :
    trail.circleThrough cell =
      (if cell ∈ trail.toList then trail.toList.dropWhile (· ≠ cell) else trail.toList) ++
        [cell] := by
  refine Option.get_of_eq_some _ ?_
  by_cases h : cell ∈ trail.toList
  · obtain ⟨above, below, hsplit, hnew⟩ := List.eq_append_cons_of_mem h
    rw [if_pos h, Roster.circleThrough?_of_split hsplit hnew, hsplit,
      dropWhile_append_cons hnew]
  · rw [if_neg h]
    exact Roster.circleThrough?_of_not_mem h

end Trail

end PostfixSheet
