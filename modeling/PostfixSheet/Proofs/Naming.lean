/-
Names of cells and the cells that they name.

A reference leads to a cell if its letter and its number are those of the cell, and the cell
lies in the sheet.  So it leads there in every larger sheet too, and the name of a cell leads
to that cell in every sheet that has it.
-/
import PostfixSheet.Sheet

namespace PostfixSheet

open Text

namespace Address

variable {text : String} {rows cols rows' cols' : Nat} {target cell : Address}

theorem locate_eq_ok_iff :
    locate text rows cols = .ok target ↔
      parts? text = some (target.row, target.col + 1) ∧ target.row < rows ∧ target.col < cols := by
  unfold locate
  constructor
  · intro h
    split at h
    · cases h
    · cases h
    · rename_i row col hparts
      split at h
      · rename_i hinside
        cases h
        exact ⟨hparts, hinside⟩
      · cases h
  · rintro ⟨hparts, hinside⟩
    simp only [hparts, if_pos hinside]

theorem holds_of_locate {sheet : Sheet} (h : locate text sheet.rows sheet.cols = .ok target) :
    sheet.Holds target :=
  (locate_eq_ok_iff.1 h).2

/-- A reference that leads to a cell leads there in a larger sheet too. -/
theorem locate_mono (hrows : rows ≤ rows') (hcols : cols ≤ cols')
    (h : locate text rows cols = .ok target) : locate text rows' cols' = .ok target := by
  obtain ⟨hparts, hrow, hcol⟩ := locate_eq_ok_iff.1 h
  exact locate_eq_ok_iff.2 ⟨hparts, Nat.lt_of_lt_of_le hrow hrows, Nat.lt_of_lt_of_le hcol hcols⟩

theorem exists_rowLetter? {row : Nat} (h : row < maxRows) :
    ∃ letter, rowLetter? row = some letter ∧ letter.isAlpha = true ∧ rowOfLetter letter = row := by
  have hletters : ∀ row < maxRows, (Char.ofNat ('A'.toNat + row)).isAlpha = true ∧
      rowOfLetter (Char.ofNat ('A'.toNat + row)) = row := by
    decide
  exact ⟨_, if_pos h, hletters row h⟩

theorem parts?_ofList {letter : Char} {digits : List Char} {number : Nat}
    (hletter : letter.isAlpha = true) (hdigits : isDigits digits = true)
    (hnumber : word? digits = some number) :
    parts? (String.ofList (letter :: digits)) = some (rowOfLetter letter, number) := by
  simp only [parts?, String.toList_ofList, hletter, hdigits, and_self, if_true, hnumber,
    Option.map_some]

theorem parts?_name (hrow : cell.row < maxRows) (hcol : cell.col + 1 ≤ maxWord) :
    parts? cell.name = some (cell.row, cell.col + 1) := by
  obtain ⟨letter, hname, hletter, hback⟩ := exists_rowLetter? hrow
  have hdigits : isDigits (Nat.toDigits 10 (cell.col + 1)) = true := by
    have hall : ∀ c ∈ Nat.toDigits 10 (cell.col + 1), c.isDigit = true := fun c hc =>
      Nat.isDigit_of_mem_toDigits (by decide) (by decide) hc
    simpa [isDigits] using hall
  have hnumber : word? (Nat.toDigits 10 (cell.col + 1)) = some (cell.col + 1) := by
    rw [word?, digitsValue_toDigits, if_pos hcol]
  rw [name, hname, nextWord_of_lt hcol]
  simp only [parts?_ofList hletter hdigits hnumber, hback]

theorem locate_name {sheet : Sheet} (inside : sheet.Holds cell) :
    locate cell.name sheet.rows sheet.cols = .ok cell := by
  have hrow : cell.row < maxRows := Nat.lt_of_lt_of_le inside.1 sheet.rows_le
  have hcols : sheet.cols ≤ sheet.size := Nat.le_mul_of_pos_left _ sheet.rows_pos
  have hcol : cell.col + 1 ≤ maxWord :=
    Nat.le_trans (Nat.succ_le_of_lt inside.2) (Nat.le_trans hcols sheet.size_le)
  exact locate_eq_ok_iff.2 ⟨parts?_name hrow hcol, inside⟩

end Address

end PostfixSheet
