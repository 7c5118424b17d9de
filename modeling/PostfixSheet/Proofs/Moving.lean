/-
Moving the cells of a sheet.

The cells of a sheet may be moved to other places, also in a sheet of another shape, if the
references to them are renamed with them.  Nothing in an evaluation depends on where a cell
stands: moved cells come to the same values, and meet the same faults and circles.
-/
import Mathlib.Data.Set.Function
import PostfixSheet.Proofs.Layout
import PostfixSheet.Proofs.Mirroring
import PostfixSheet.Proofs.Success

namespace PostfixSheet

/-- A token of a sheet after its cells have been moved. -/
def Token.moved (sheet : Sheet) (move : Address → Address) : Token → Token
  | .reference text =>
    match Address.locate text sheet.rows sheet.cols with
    | .ok target => .reference (move target).name
    | .error _ => .reference text
  | token => token

namespace Sheet

variable {sheet image : Sheet} {move : Address → Address} {cell : Address}

/-- All references of a sheet lead to cells of it, and its cells fill another sheet, each
with its formula up to the names of the moved cells. -/
structure Moved (sheet image : Sheet) (move : Address → Address) : Prop where
  located : sheet.Located
  bijOn : Set.BijOn move {cell | sheet.Holds cell} {cell | image.Holds cell}
  tokens : ∀ cell, ∀ inside : sheet.Holds cell, ∀ inside' : image.Holds (move cell),
    (image.site (move cell) inside').formula.tokens =
      (sheet.site cell inside).formula.tokens.map (Token.moved sheet move)

theorem Moved.holds (h : sheet.Moved image move) (inside : sheet.Holds cell) :
    image.Holds (move cell) :=
  h.bijOn.mapsTo inside

/-- The new name of a cell leads to where the cell has been moved. -/
theorem Moved.mirrors_token (h : sheet.Moved image move) (inside : sheet.Holds cell)
    (inside' : image.Holds (move cell)) {token : Token}
    (htoken : token ∈ (sheet.site cell inside).formula.tokens) :
    Token.Mirrors move (sheet.site cell inside) (image.site (move cell) inside') token
      (token.moved sheet move) := by
  cases token with
  | number value => exact .number value
  | binary op => exact .binary op
  | unary op => exact .unary op
  | reference text =>
      obtain ⟨target, hlocated⟩ :=
        forall_formula_iff.1 h.located cell inside text (Formula.mem_references.2 htoken)
      have hname : Address.locate (move target).name image.rows image.cols = .ok (move target) :=
        Address.locate_name (h.holds (Address.holds_of_locate hlocated))
      simp only [Token.moved, hlocated]
      apply Token.Mirrors.reference
      change Address.locate _ image.rows image.cols =
        (Address.locate text sheet.rows sheet.cols).map move
      rw [hname, hlocated, Except.map]

theorem Moved.mirrors (h : sheet.Moved image move) : sheet.Mirrors image move where
  holds := h.holds
  injOn := fun inside inside' hsame => h.bijOn.injOn inside inside' hsame
  tokens := by
    intro cell inside inside'
    rw [h.tokens cell inside inside', List.forall₂_map_right_iff, List.forall₂_same]
    exact fun token htoken => h.mirrors_token inside inside' htoken

/-- A cell has the same value before and after it is moved.  If it has none, the evaluations
fail for the same reason, at a cell and at the place to which this cell has been moved; and
a circle is made up of the moved cells. -/
theorem compute_of_moved (h : sheet.Moved image move) (inside : sheet.Holds cell) :
    (∀ value, (sheet.compute cell ⟨.fresh _, .empty⟩).1 = .ok value ↔
      (image.compute (move cell) ⟨.fresh _, .empty⟩).1 = .ok value) ∧
    (∀ fault, (sheet.compute cell ⟨.fresh _, .empty⟩).1 = .error fault →
      ∃ fault', (image.compute (move cell) ⟨.fresh _, .empty⟩).1 = .error fault' ∧
        fault.Mirrors move fault') := by
  obtain ⟨hanswer, -⟩ := h.mirrors.compute inside (Run.mirrors_fresh sheet image move)
  exact ⟨fun _ => hanswer.eq_ok_iff, fun _ => hanswer.exists_fault⟩

namespace MovingWitness

/-- The last cell of the first row and the first one of the second row refer to each other. -/
def wide : Sheet :=
  ofFormulas 2 3 #v[⟨"A2 b03 +"⟩, ⟨"5"⟩, ⟨"B1"⟩, ⟨"A3"⟩, ⟨"+"⟩, ⟨"2"⟩] (by decide)

def tall : Sheet :=
  ofFormulas 3 2 #v[⟨"B1 C2 +"⟩, ⟨"C1"⟩, ⟨"5"⟩, ⟨"+"⟩, ⟨"A2"⟩, ⟨"2"⟩] (by decide)

def transpose (cell : Address) : Address := ⟨cell.col, cell.row⟩

/-- The circle in the wide sheet, entered in its first row. -/
def corners : Circle where
  trigger := ⟨1, 0⟩
  triggerText := "A3"
  reference := "A3"
  revisited := ⟨0, 2⟩
  revisitedText := "B1"
  chain := [⟨0, 2⟩, ⟨1, 0⟩, ⟨0, 2⟩]

theorem moved_tall : wide.Moved tall transpose where
  located := by
    have hfound : ∀ formula ∈ wide.formulas, ∀ text ∈ formula.references,
        (Address.locate text wide.rows wide.cols).isOk = true := by decide +kernel
    intro formula hformula text htext
    have hok := hfound formula hformula text htext
    cases hlocated : Address.locate text wide.rows wide.cols with
    | ok target => exact ⟨target, rfl⟩
    | error reason =>
        rw [hlocated] at hok
        cases hok
  bijOn := by
    have hback : Set.InvOn transpose transpose {cell | wide.Holds cell} {cell | tall.Holds cell} :=
      ⟨fun _ _ => rfl, fun _ _ => rfl⟩
    exact hback.bijOn (fun cell inside => ⟨inside.2, inside.1⟩)
      (fun cell inside => ⟨inside.2, inside.1⟩)
  tokens := by
    have htokens : ∀ row < 2, ∀ col < 3,
        (tall.formula? (transpose ⟨row, col⟩)).map Formula.tokens = (wide.formula? ⟨row, col⟩).map
          fun formula => formula.tokens.map (Token.moved wide transpose) := by
      decide +kernel
    intro cell inside inside'
    have hsame := htokens cell.row inside.1 cell.col inside.2
    rw [formula?_eq_some inside, formula?_eq_some inside'] at hsame
    exact Option.some.inj hsame

/-- The first cell keeps its value, and the circle through the corners is transposed. -/
theorem compute_of_moved_tall :
    wide.Moved tall transpose ∧
      (wide.Holds ⟨0, 0⟩ ∧ (tall.compute ⟨0, 0⟩ ⟨.fresh _, .empty⟩).1 = .ok 7) ∧
      (wide.Holds ⟨0, 2⟩ ∧
        ∃ circle, (tall.compute ⟨2, 0⟩ ⟨.fresh _, .empty⟩).1 = .error (.circular circle) ∧
          circle.trigger = ⟨0, 1⟩ ∧ circle.chain = [⟨2, 0⟩, ⟨0, 1⟩, ⟨2, 0⟩]) := by
  have hvalue : (wide.compute ⟨0, 0⟩ ⟨.fresh _, .empty⟩).1 = .ok 7 := by decide +kernel
  have hfault : (wide.compute ⟨0, 2⟩ ⟨.fresh _, .empty⟩).1 = .error (.circular corners) := by
    decide +kernel
  have hfirst : wide.Holds ⟨0, 0⟩ := by decide
  have hlast : wide.Holds ⟨0, 2⟩ := by decide
  refine ⟨moved_tall, ⟨hfirst, ((compute_of_moved moved_tall hfirst).1 7).1 hvalue⟩, hlast, ?_⟩
  obtain ⟨fault, hmoved, hmirrors⟩ := (compute_of_moved moved_tall hlast).2 _ hfault
  cases hmirrors with
  | @circular _ circle htrigger _ hchain => exact ⟨circle, hmoved, htrigger, hchain⟩

end MovingWitness

end Sheet

end PostfixSheet
