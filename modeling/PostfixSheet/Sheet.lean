/-
Sheets: a rectangle of formulas.

The formulas are stored row by row, and `index` and `address` go back and forth
between a cell's address and its place in that order.
-/
import PostfixSheet.Address
import PostfixSheet.Formula

namespace PostfixSheet

open Text

/-- A sheet as it is written.  There is at least one row and one column, every
row has a letter, the number of cells fits a word and no formula is blank. -/
structure Sheet where
  rows : Nat
  cols : Nat
  formulas : Vector Formula (rows * cols)
  rows_pos : 0 < rows
  cols_pos : 0 < cols
  rows_le : rows ≤ Address.maxRows
  size_le : rows * cols ≤ maxWord
  not_blank : ∀ formula ∈ formulas, formula.isBlank = false

/-- Why texts do not make up a sheet. -/
inductive BuildFault where
  | dimensions (rows cols : Nat)
  | count (expected found : Nat)
  | blank (cell : Address)
  deriving DecidableEq, Repr

namespace BuildFault

def message : BuildFault → String
  | .dimensions rows cols =>
    s!"invalid grid size {rows}x{cols}: rows must be 1..=26 and columns at least 1"
  | .count expected found =>
    s!"grid needs {expected} expressions but {found} were supplied"
  | .blank cell => s!"expression for cell {cell.name} is empty"

end BuildFault

namespace Sheet

abbrev size (sheet : Sheet) : Nat := sheet.rows * sheet.cols

/-- The address of the cell in a given place of a sheet with `cols` columns. -/
def addressIn (cols place : Nat) : Address :=
  ⟨place / cols, place % cols⟩

def address (sheet : Sheet) (place : Nat) : Address :=
  addressIn sheet.cols place

def addresses (sheet : Sheet) : List Address :=
  (List.range sheet.size).map sheet.address

/-- The sheet has a cell at this address. -/
def Holds (sheet : Sheet) (cell : Address) : Prop :=
  cell.row < sheet.rows ∧ cell.col < sheet.cols

instance (sheet : Sheet) (cell : Address) : Decidable (sheet.Holds cell) :=
  inferInstanceAs (Decidable (_ ∧ _))

theorem index_lt {sheet : Sheet} {cell : Address} (h : sheet.Holds cell) :
    cell.row * sheet.cols + cell.col < sheet.size :=
  calc cell.row * sheet.cols + cell.col
    _ < cell.row * sheet.cols + sheet.cols := Nat.add_lt_add_left h.2 _
    _ = (cell.row + 1) * sheet.cols := by rw [Nat.add_mul, Nat.one_mul]
    _ ≤ sheet.rows * sheet.cols := Nat.mul_le_mul_right _ h.1

/-- The place of a cell. -/
def index (sheet : Sheet) (cell : Address) (h : sheet.Holds cell) : Fin sheet.size :=
  ⟨cell.row * sheet.cols + cell.col, index_lt h⟩

/-- The place of a cell, if the sheet has that cell. -/
def index? (sheet : Sheet) (cell : Address) : Option (Fin sheet.size) :=
  if h : sheet.Holds cell then some (sheet.index cell h) else none

def formula? (sheet : Sheet) (cell : Address) : Option Formula :=
  (sheet.index? cell).map fun place => sheet.formulas[place]

/-- From a cell to its place and back. -/
theorem address_index {sheet : Sheet} {cell : Address} (h : sheet.Holds cell) :
    sheet.address (sheet.index cell h) = cell := by
  simp [address, addressIn, index, Nat.mul_comm cell.row,
    Nat.mul_add_div sheet.cols_pos, Nat.div_eq_of_lt h.2, Nat.mod_eq_of_lt h.2]

theorem holds_address (sheet : Sheet) (place : Fin sheet.size) :
    sheet.Holds (sheet.address place) :=
  ⟨Nat.div_lt_of_lt_mul (Nat.mul_comm sheet.rows sheet.cols ▸ place.isLt),
    Nat.mod_lt _ sheet.cols_pos⟩

/-- From a place to its cell and back. -/
theorem index_address (sheet : Sheet) (place : Fin sheet.size) :
    sheet.index (sheet.address place) (sheet.holds_address place) = place :=
  Fin.ext (Nat.div_add_mod' place.val sheet.cols)

/-- Different cells have different places. -/
theorem index_inj {sheet : Sheet} {left right : Address} (hl : sheet.Holds left)
    (hr : sheet.Holds right) :
    sheet.index left hl = sheet.index right hr ↔ left = right := by
  constructor
  · intro h
    rw [← address_index hl, ← address_index hr, h]
  · rintro rfl
    rfl

/-- The sizes that a sheet can have. -/
def ValidSize (rows cols : Nat) : Prop :=
  0 < rows ∧ 0 < cols ∧ rows ≤ Address.maxRows ∧ rows * cols ≤ maxWord

instance (rows cols : Nat) : Decidable (ValidSize rows cols) :=
  inferInstanceAs (Decidable (_ ∧ _ ∧ _ ∧ _))

/-- The sheet with these formulas, row by row.  The size is looked at first, then
the texts in order, as far as there are cells for them, and their number last. -/
def ofTexts (rows cols : Nat) (texts : List String) : Except BuildFault Sheet :=
  if hsize : ValidSize rows cols then
    let formulas := texts.map Formula.mk
    match hblank : (formulas.take (rows * cols)).findIdx? Formula.isBlank with
    | some place => .error (.blank (addressIn cols place))
    | none =>
      if hcount : formulas.length = rows * cols then
        .ok {
          rows, cols
          formulas := ⟨formulas.toArray, by simpa using hcount⟩
          rows_pos := hsize.1
          cols_pos := hsize.2.1
          rows_le := hsize.2.2.1
          size_le := hsize.2.2.2
          not_blank := by
            intro formula hmember
            rw [List.take_of_length_le (Nat.le_of_eq hcount),
              List.findIdx?_eq_none_iff] at hblank
            exact hblank formula (by simpa using hmember) }
      else .error (.count (rows * cols) (min formulas.length (rows * cols + 1)))
  else .error (.dimensions rows cols)

end Sheet

end PostfixSheet
