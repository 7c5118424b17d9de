/-
How far the calculation of a sheet has come.

The formulas of a sheet never change.  What changes is kept here: a record for every
cell, and the number of formulas that have been run.

The stage of a cell and its value are two fields of a record and are written one by
one, so that no record by itself makes them agree.  `Agreeing` says that they do, and
each change of a record keeps it up in its place.  An evaluation goes by both fields
at once; what it makes of them is the `mark` of the record.
-/
import PostfixSheet.Sheet
import PostfixSheet.Trail

namespace PostfixSheet

inductive Stage where
  | untouched
  /-- The formula has been entered, and perhaps left again with a fault. -/
  | started
  | done
  deriving DecidableEq, Repr

/-- What an evaluation goes by when it comes to a cell. -/
inductive Mark where
  | untouched
  | started
  | done (value : Float)
  deriving DecidableEq

namespace Mark

def isDone : Mark → Bool
  | .done _ => true
  | _ => false

def value? : Mark → Option Float
  | .done value => some value
  | _ => none

theorem isDone_iff {mark : Mark} : mark.isDone = true ↔ ∃ value, mark = .done value := by
  cases mark <;> simp [isDone]

end Mark

/-- The record of one cell. -/
structure Entry where
  stage : Stage
  value : Option Float
  /-- The reference that was followed last from this cell, as written. -/
  lastReference : Option String
  deriving DecidableEq

namespace Entry

variable {entry left right : Entry} {value : Float}

/-- A value counts only in a cell that is done.  A cell that is done and has no value
is entered like one that has not been touched. -/
def mark (entry : Entry) : Mark :=
  match entry.stage, entry.value with
  | .done, some value => .done value
  | .started, _ => .started
  | _, _ => .untouched

/-- Stage and value agree on whether the cell has been calculated. -/
def Agreeing (entry : Entry) : Prop :=
  entry.stage = .done ↔ entry.value.isSome

theorem mark_eq_done_iff :
    entry.mark = .done value ↔ entry.stage = .done ∧ entry.value = some value := by
  rcases entry with ⟨_ | _ | _, _ | _, _⟩ <;> simp [mark]

theorem mark_eq_started_iff : entry.mark = .started ↔ entry.stage = .started := by
  rcases entry with ⟨_ | _ | _, _ | _, _⟩ <;> simp [mark]

theorem Agreeing.mark_eq_untouched_iff (h : entry.Agreeing) :
    entry.mark = .untouched ↔ entry.stage = .untouched := by
  rcases entry with ⟨_ | _ | _, _ | _, _⟩ <;> simp_all [mark, Agreeing]

theorem Agreeing.isDone_mark_iff (h : entry.Agreeing) :
    entry.mark.isDone = true ↔ entry.stage = .done := by
  rcases entry with ⟨_ | _ | _, _ | _, _⟩ <;> simp_all [mark, Agreeing, Mark.isDone]

/-- Stages and values can be read off marks. -/
theorem Agreeing.stage_value_eq (hl : left.Agreeing) (hr : right.Agreeing)
    (hmark : left.mark = right.mark) : (left.stage, left.value) = (right.stage, right.value) := by
  rcases left with ⟨_ | _ | _, _ | _, _⟩ <;> rcases right with ⟨_ | _ | _, _ | _, _⟩ <;>
    simp_all [mark, Agreeing]

/-- Records that agree in themselves are known by their marks and latest references. -/
theorem Agreeing.ext (hl : left.Agreeing) (hr : right.Agreeing) (hmark : left.mark = right.mark)
    (hreference : left.lastReference = right.lastReference) : left = right := by
  have hsame := hl.stage_value_eq hr hmark
  cases left
  cases right
  simp_all

end Entry

/-- The state of a calculation over `size` cells. -/
structure Progress (size : Nat) where
  entries : Vector Entry size
  /-- How many times a formula has been run. -/
  evaluations : Nat
  deriving DecidableEq

namespace Progress

variable {size : Nat}

def fresh (size : Nat) : Progress size :=
  ⟨Vector.replicate size ⟨.untouched, none, none⟩, 0⟩

def entry (progress : Progress size) (place : Fin size) : Entry :=
  progress.entries[place]

def stage (progress : Progress size) (place : Fin size) : Stage :=
  (progress.entry place).stage

def value? (progress : Progress size) (place : Fin size) : Option Float :=
  (progress.entry place).value

def mark (progress : Progress size) (place : Fin size) : Mark :=
  (progress.entry place).mark

def lastReference (progress : Progress size) (place : Fin size) : Option String :=
  (progress.entry place).lastReference

def modify (progress : Progress size) (place : Fin size) (change : Entry → Entry) :
    Progress size :=
  let ⟨entries, evaluations⟩ := progress
  ⟨entries.set place (change entries[place]), evaluations⟩

def start (progress : Progress size) (place : Fin size) : Progress size :=
  let ⟨entries, evaluations⟩ := progress.modify place ({ · with stage := .started })
  ⟨entries, evaluations + 1⟩

/-- Follows a reference from a cell. -/
def follow (progress : Progress size) (place : Fin size) (reference : String) :
    Progress size :=
  progress.modify place ({ · with lastReference := some reference })

def finish (progress : Progress size) (place : Fin size) (value : Float) :
    Progress size :=
  progress.modify place ({ · with value := some value, stage := .done })

/-- Every cell has its value. -/
def Complete (progress : Progress size) : Prop :=
  ∀ place, (progress.mark place).isDone = true

/-- The values of all cells, row by row, if every cell has one. -/
def values? (progress : Progress size) : Option (List Float) :=
  progress.entries.toList.mapM fun entry => entry.mark.value?

@[simp] theorem entry_fresh (place : Fin size) :
    (fresh size).entry place = ⟨.untouched, none, none⟩ := by
  simp [fresh, entry]

theorem entry_modify (progress : Progress size) (place other : Fin size)
    (change : Entry → Entry) :
    (progress.modify place change).entry other =
      if place = other then change (progress.entry place) else progress.entry other := by
  simp only [modify, entry, Fin.getElem_fin, Vector.getElem_set, Fin.ext_iff]

theorem entry_start (progress : Progress size) (place other : Fin size) :
    (progress.start place).entry other =
      if place = other then { progress.entry place with stage := .started }
      else progress.entry other :=
  entry_modify progress place other ({ · with stage := .started })

@[simp] theorem mark_fresh (place : Fin size) :
    (fresh size).mark place = .untouched := by
  rw [mark, entry_fresh]
  rfl

@[simp] theorem mark_start (progress : Progress size) (place other : Fin size) :
    (progress.start place).mark other =
      if place = other then .started else progress.mark other := by
  rw [mark, entry_start]
  split <;> rfl

@[simp] theorem mark_follow (progress : Progress size) (place other : Fin size)
    (reference : String) :
    (progress.follow place reference).mark other = progress.mark other := by
  rw [mark, follow, entry_modify]
  split
  · rename_i hsame
    subst hsame
    rfl
  · rfl

@[simp] theorem mark_finish (progress : Progress size) (place other : Fin size)
    (value : Float) :
    (progress.finish place value).mark other =
      if place = other then .done value else progress.mark other := by
  rw [mark, finish, entry_modify]
  split <;> rfl

@[simp] theorem lastReference_fresh (place : Fin size) :
    (fresh size).lastReference place = none := by
  rw [lastReference, entry_fresh]

@[simp] theorem lastReference_start (progress : Progress size) (place other : Fin size) :
    (progress.start place).lastReference other = progress.lastReference other := by
  rw [lastReference, entry_start]
  split
  · rename_i hsame
    subst hsame
    rfl
  · rfl

@[simp] theorem lastReference_follow (progress : Progress size) (place other : Fin size)
    (reference : String) :
    (progress.follow place reference).lastReference other =
      if place = other then some reference else progress.lastReference other := by
  rw [lastReference, follow, entry_modify]
  split <;> rfl

@[simp] theorem lastReference_finish (progress : Progress size) (place other : Fin size)
    (value : Float) :
    (progress.finish place value).lastReference other = progress.lastReference other := by
  rw [lastReference, finish, entry_modify]
  split
  · rename_i hsame
    subst hsame
    rfl
  · rfl

@[simp] theorem evaluations_start (progress : Progress size) (place : Fin size) :
    (progress.start place).evaluations = progress.evaluations + 1 := rfl

@[simp] theorem evaluations_follow (progress : Progress size) (place : Fin size)
    (reference : String) :
    (progress.follow place reference).evaluations = progress.evaluations := rfl

@[simp] theorem evaluations_finish (progress : Progress size) (place : Fin size)
    (value : Float) :
    (progress.finish place value).evaluations = progress.evaluations := rfl

/-- In every record the stage and the value agree. -/
def Agreeing (progress : Progress size) : Prop :=
  ∀ place, (progress.entry place).Agreeing

theorem agreeing_fresh (size : Nat) : (fresh size).Agreeing := by
  intro place
  simp [Entry.Agreeing]

variable {progress left right : Progress size}

theorem Agreeing.modify (h : progress.Agreeing) {place : Fin size} {change : Entry → Entry}
    (hchanged : (change (progress.entry place)).Agreeing) :
    (progress.modify place change).Agreeing := by
  intro other
  rw [entry_modify]
  split
  · exact hchanged
  · exact h other

/-- A cell that is entered has no value yet. -/
theorem Agreeing.start (h : progress.Agreeing) {place : Fin size}
    (hpending : ¬(progress.mark place).isDone = true) : (progress.start place).Agreeing := by
  have hstage : (progress.entry place).stage ≠ .done := mt (h place).isDone_mark_iff.2 hpending
  have hvalue : ¬(progress.entry place).value.isSome := mt (h place).2 hstage
  have hmodified : (progress.modify place ({ · with stage := .started })).Agreeing :=
    h.modify (by simpa [Entry.Agreeing] using hvalue)
  exact hmodified

theorem Agreeing.follow (h : progress.Agreeing) (place : Fin size) (reference : String) :
    (progress.follow place reference).Agreeing :=
  h.modify (h place)

theorem Agreeing.finish (h : progress.Agreeing) (place : Fin size) (value : Float) :
    (progress.finish place value).Agreeing :=
  h.modify (by simp [Entry.Agreeing])

/-- Records in which stages and values agree are known by the marks and the latest
references. -/
theorem Agreeing.entries_eq (hl : left.Agreeing) (hr : right.Agreeing)
    (hmarks : ∀ place, left.mark place = right.mark place)
    (hreferences : ∀ place, left.lastReference place = right.lastReference place) :
    left.entries = right.entries := by
  apply Vector.ext
  intro i hi
  exact (hl ⟨i, hi⟩).ext (hr ⟨i, hi⟩) (hmarks ⟨i, hi⟩) (hreferences ⟨i, hi⟩)

theorem Agreeing.ext (hl : left.Agreeing) (hr : right.Agreeing)
    (hmarks : ∀ place, left.mark place = right.mark place)
    (hreferences : ∀ place, left.lastReference place = right.lastReference place)
    (hcounts : left.evaluations = right.evaluations) : left = right := by
  have hentries := hl.entries_eq hr hmarks hreferences
  cases left
  cases right
  cases hentries
  cases hcounts
  rfl

end Progress

end PostfixSheet
