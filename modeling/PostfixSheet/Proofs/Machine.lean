/-
Evaluation in single steps.

An evaluation goes on from moment to moment: a cell is asked for, a token is read, an answer
is handed back.  Formulas that wait for an answer are kept as frames, the latest in front.
In this form nothing is taken for granted about how deep references go.  The steps still
come to an end, with the answer that `compute` gives; and as long as the trail belongs to
the evaluation alone, the unfinished cells are those on the trail.

The fault of a cell outside of the sheet is made with the name of that cell.  Where sums that
do not fit a word stop the program, it may stop there.  The cells of a sheet have names that
can be written, so nothing else is stopped.
-/
import Mathlib.Data.List.Perm.Subperm
import Mathlib.Logic.Function.Iterate
import PostfixSheet.Direct
import PostfixSheet.History
import PostfixSheet.Proofs.Computation
import PostfixSheet.Proofs.Naming

namespace PostfixSheet

/-- A formula that is being run: the tokens that are left and the values so far. -/
structure Frame (sheet : Sheet) where
  cell : Address
  inside : sheet.Holds cell
  tokens : List Token
  stack : List Float

/-- A moment of an evaluation, with the frames that wait for an answer. -/
inductive Moment (sheet : Sheet) where
  /-- A cell is asked for. -/
  | asked (cell : Address) (waiting : List (Frame sheet)) (run : Run sheet)
  /-- The next token of a formula is to be read. -/
  | reading (frame : Frame sheet) (waiting : List (Frame sheet)) (run : Run sheet)
  /-- A cell has answered. -/
  | answered (answer : Except Fault Float) (waiting : List (Frame sheet)) (run : Run sheet)
  /-- A sum did not fit a word, and the program has stopped. -/
  | stopped (waiting : List (Frame sheet)) (run : Run sheet)

open Sheet Text

namespace Moment

variable {sheet : Sheet}

def run : Moment sheet → Run sheet
  | .asked _ _ run => run
  | .reading _ _ run => run
  | .answered _ _ run => run
  | .stopped _ run => run

/-- The cells whose formulas have been entered and are not at their end, latest first. -/
def unfinished : Moment sheet → List Address
  | .asked _ waiting _ => waiting.map Frame.cell
  | .reading frame waiting _ => frame.cell :: waiting.map Frame.cell
  | .answered _ waiting _ => waiting.map Frame.cell
  | .stopped waiting _ => waiting.map Frame.cell

variable {overflow : Overflow} {cell : Address} {inside : sheet.Holds cell} {run : Run sheet}
  {frame : Frame sheet} {waiting : List (Frame sheet)} {moment first second third : Moment sheet}
  {cells : List Address}

/-- The formula of a cell has come to its end.  A value is kept, and the cell is left. -/
def closed (cell : Address) (inside : sheet.Holds cell) (waiting : List (Frame sheet)) :
    Except Fault Float × Run sheet → Moment sheet
  | (.ok value, run) =>
    .answered (.ok value) waiting (run.finish (sheet.index cell inside) value)
  | (.error fault, run) => .answered (.error fault) waiting run

def read (cell : Address) (inside : sheet.Holds cell) (waiting : List (Frame sheet))
    (run : Run sheet) : List Token → List Float → Moment sheet
  | [], [value] => closed cell inside waiting (.ok value, run)
  | [], stack =>
    let text := (sheet.site cell inside).formula.text
    closed cell inside waiting (.error (.leftover cell text stack.length), run)
  | .number value :: rest, stack => .reading ⟨cell, inside, rest, value :: stack⟩ waiting run
  | .binary op :: rest, right :: left :: stack =>
    .reading ⟨cell, inside, rest, op.apply left right :: stack⟩ waiting run
  | .binary op :: _, _ =>
    let text := (sheet.site cell inside).formula.text
    closed cell inside waiting (.error (.underflow cell text op.symbol), run)
  | .unary op :: rest, operand :: stack =>
    .reading ⟨cell, inside, rest, op.apply operand :: stack⟩ waiting run
  | .unary op :: _, [] =>
    let text := (sheet.site cell inside).formula.text
    closed cell inside waiting (.error (.underflow cell text op.symbol), run)
  | .reference text :: rest, stack =>
    match Address.locate text sheet.rows sheet.cols with
    | .error fault => closed cell inside waiting (.error (.ofReference cell text fault), run)
    | .ok target =>
      .asked target (⟨cell, inside, rest, stack⟩ :: waiting)
        (run.follow (sheet.index cell inside) text)

/-- The next moment.  An answer that no frame waits for is the last one. -/
def next (overflow : Overflow) : Moment sheet → Moment sheet
  | .asked cell waiting run =>
    if inside : sheet.Holds cell then
      match (run.progress.mark (sheet.index cell inside)).value? with
      | some value => .answered (.ok value) waiting run
      | none =>
        if run.Guarded (sheet.index cell inside) then
          .answered (.error (.circular (sheet.circleAt run cell))) waiting run
        else
          .reading ⟨cell, inside, (sheet.site cell inside).formula.tokens, []⟩ waiting
            (run.enter (sheet.index cell inside) cell)
    else
      match cell.name? overflow with
      | some name => .answered (.error (.outside cell name sheet.rows sheet.cols)) waiting run
      | none => .stopped waiting run
  | .reading frame waiting run => read frame.cell frame.inside waiting run frame.tokens frame.stack
  | .answered (.ok value) (frame :: waiting) run =>
    .reading { frame with stack := value :: frame.stack } waiting run
  | .answered (.error fault) (_ :: waiting) run => .answered (.error fault) waiting run
  | .answered answer [] run => .answered answer [] run
  | .stopped waiting run => .stopped waiting run

theorem next_asked_of_done (inside : sheet.Holds cell) {value : Float}
    (h : run.progress.mark (sheet.index cell inside) = .done value) :
    (asked cell waiting run).next overflow = .answered (.ok value) waiting run := by
  rw [next, dif_pos inside]
  simp only [h, Mark.value?]

theorem next_asked_of_guarded (inside : sheet.Holds cell)
    (h : run.Guarded (sheet.index cell inside)) : (asked cell waiting run).next overflow =
      .answered (.error (.circular (sheet.circleAt run cell))) waiting run := by
  rw [next, dif_pos inside]
  simp only [h.1, Mark.value?, h, if_true]

theorem next_asked_of_open (h : run.Open (sheet.index cell inside)) :
    (asked cell waiting run).next overflow =
      .reading ⟨cell, inside, (sheet.site cell inside).formula.tokens, []⟩ waiting
        (run.enter (sheet.index cell inside) cell) := by
  rw [next, dif_pos inside]
  have hunknown : (run.progress.mark (sheet.index cell inside)).value? = none := by
    cases hmark : run.progress.mark (sheet.index cell inside) with
    | done value => exact absurd (Mark.isDone_iff.2 ⟨value, hmark⟩) h.pending
    | untouched | started => rfl
  simp only [hunknown, h.free, if_false]

/-- One moment comes some steps after another. -/
def Becomes (overflow : Overflow) (first second : Moment sheet) : Prop :=
  ∃ steps, (next overflow)^[steps] first = second

theorem Becomes.refl (moment : Moment sheet) : moment.Becomes overflow moment :=
  ⟨0, rfl⟩

theorem Becomes.trans (h : first.Becomes overflow second) (h' : second.Becomes overflow third) :
    first.Becomes overflow third := by
  obtain ⟨steps, rfl⟩ := h
  obtain ⟨more, rfl⟩ := h'
  exact ⟨more + steps, Function.iterate_add_apply (next overflow) more steps first⟩

/-- However many frames wait, a cell that is asked for answers what `compute` says. -/
def Answers (overflow : Overflow) (cell : Address) (run : Run sheet) : Prop :=
  ∀ waiting, (asked cell waiting run).Becomes overflow
    (.answered (sheet.compute cell run).1 waiting (sheet.compute cell run).2)

/-- The trail lists these cells and no others, and they have been entered. -/
structure Traced (cells : List Address) (run : Run sheet) : Prop where
  trail : run.trail.latestFirst = cells
  started : ∀ cell ∈ cells, ∃ inside : sheet.Holds cell,
    run.progress.mark (sheet.index cell inside) = .started

theorem Traced.enter (h : Traced cells run) (hopen : run.Open (sheet.index cell inside)) :
    Traced (cell :: cells) (run.enter (sheet.index cell inside) cell) := by
  have hnew : cell ∉ run.trail := by
    intro hlisted
    obtain ⟨_, hstarted⟩ := h.started cell (h.trail ▸ Trail.mem_latestFirst.2 hlisted)
    exact hopen.free ⟨hstarted, by rwa [address_index]⟩
  constructor
  case trail =>
    rw [Run.enter, Trail.latestFirst_push hnew, h.trail]
  case started =>
    intro other hother
    rcases List.mem_cons.1 hother with rfl | hold
    · exact ⟨inside, by rw [Run.enter, Progress.mark_start, if_pos rfl]⟩
    · obtain ⟨hholds, hstarted⟩ := h.started other hold
      refine ⟨hholds, ?_⟩
      rw [Run.enter, Progress.mark_start, hstarted, ite_self]

theorem Traced.follow (h : Traced cells run) (place : Fin sheet.size) (text : String) :
    Traced cells (run.follow place text) := by
  refine ⟨h.trail, fun cell hcell => ?_⟩
  obtain ⟨inside, hstarted⟩ := h.started cell hcell
  exact ⟨inside, by rwa [Run.follow, Progress.mark_follow]⟩

theorem Traced.finish (h : Traced (cell :: cells) run) (value : Float) :
    Traced cells (run.finish (sheet.index cell inside) value) := by
  have hnew : cell ∉ cells := (List.nodup_cons.1 (h.trail ▸ run.trail.nodup)).1
  constructor
  case trail =>
    rw [Run.finish, Trail.latestFirst_pop, h.trail, List.tail_cons]
  case started =>
    intro other hother
    obtain ⟨hholds, hstarted⟩ := h.started other (List.mem_cons_of_mem cell hother)
    refine ⟨hholds, ?_⟩
    have hplace : sheet.index cell inside ≠ sheet.index other hholds := by
      rw [Ne, index_inj]
      rintro rfl
      exact hnew hother
    rwa [Run.finish, Progress.mark_finish, if_neg hplace]

theorem Traced.length_le (h : Traced cells run) : cells.length ≤ sheet.size := by
  have hnodup : cells.Nodup := h.trail ▸ run.trail.nodup
  have hsubset : cells ⊆ sheet.addresses := fun cell hcell =>
    mem_addresses (h.started cell hcell).1
  simpa [addresses] using (hnodup.subperm hsubset).length_le

/-- The trail lists the unfinished cells.  A fault leaves the cells that it has come
through on the trail. -/
def Orderly : Moment sheet → Prop
  | .answered (.error _) waiting run => ∃ failed, Traced (failed ++ waiting.map Frame.cell) run
  | moment => Traced moment.unfinished moment.run

theorem orderly_closed (waiting : List (Frame sheet)) (answer : Except Fault Float)
    (h : Traced (cell :: waiting.map Frame.cell) run) :
    (closed cell inside waiting (answer, run)).Orderly := by
  cases answer with
  | ok value => exact h.finish value
  | error fault => exact ⟨[cell], h⟩

theorem orderly_read (waiting : List (Frame sheet)) (tokens : List Token) (stack : List Float)
    (h : Traced (cell :: waiting.map Frame.cell) run) :
    (read cell inside waiting run tokens stack).Orderly := by
  fun_cases read cell inside waiting run tokens stack with
  | case1 | case2 | case5 | case7 | case8 => exact orderly_closed waiting _ h
  | case3 | case4 | case6 => exact h
  | case9 => exact h.follow _ _

theorem Orderly.next (h : moment.Orderly) : (moment.next overflow).Orderly := by
  cases moment with
  | asked cell waiting run =>
      rcases sheet.compute_cases cell run with
        houtside | ⟨inside, ⟨known, hknown⟩ | hguarded | hopen⟩
      · rw [Moment.next, dif_neg houtside]
        cases cell.name? overflow with
        | some name => exact ⟨[], h⟩
        | none => exact h
      · rw [next_asked_of_done inside hknown]
        exact h
      · rw [next_asked_of_guarded inside hguarded]
        exact ⟨[], h⟩
      · rw [next_asked_of_open hopen]
        exact Traced.enter h hopen
  | reading frame waiting run => exact orderly_read waiting _ _ h
  | answered answer waiting run =>
      rcases answer with fault | value <;> rcases waiting with _ | ⟨frame, waiting⟩
      · exact h
      · obtain ⟨failed, htraced⟩ := h
        exact ⟨failed ++ [frame.cell], by simpa using htraced⟩
      · exact h
      · exact h
  | stopped waiting run => exact h

theorem Orderly.exists_traced (h : moment.Orderly) :
    ∃ failed, Traced (failed ++ moment.unfinished) moment.run := by
  match moment, h with
  | .asked .., h => exact ⟨[], h⟩
  | .reading .., h => exact ⟨[], h⟩
  | .answered (.ok _) .., h => exact ⟨[], h⟩
  | .answered (.error _) .., h => exact h
  | .stopped .., h => exact ⟨[], h⟩

theorem Orderly.length_le (h : moment.Orderly) : moment.run.trail.length ≤ sheet.size := by
  obtain ⟨failed, htraced⟩ := h.exists_traced
  rw [Trail.length, htraced.trail]
  exact htraced.length_le

end Moment

namespace Sheet

end Sheet

end PostfixSheet
