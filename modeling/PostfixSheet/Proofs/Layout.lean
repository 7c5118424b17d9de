/-
Sheets made from texts.

Texts make up a sheet exactly if the sheet can have that size, there is one text for every
cell and none is blank.  The formulas are then the texts, row by row.
-/
import PostfixSheet.Sheet

namespace PostfixSheet

open Text

namespace Sheet

variable {sheet : Sheet} {cell : Address} {rows cols : Nat} {texts : List String}

/-- A sheet has the size and the formulas that it was made from. -/
theorem of_ofTexts_eq_ok {rows cols : Nat} {texts : List String}
    (h : Sheet.ofTexts rows cols texts = .ok sheet) :
    sheet.rows = rows ∧ sheet.cols = cols ∧
      sheet.formulas.toList = texts.map Formula.mk := by
  unfold ofTexts at h
  split at h
  · dsimp only at h
    split at h
    · cases h
    · split at h
      · cases h
        exact ⟨rfl, rfl, rfl⟩
      · cases h
  · cases h

theorem eq_of_formulas {other : Sheet} (hrows : sheet.rows = other.rows)
    (hcols : sheet.cols = other.cols)
    (hformulas : sheet.formulas.toList = other.formulas.toList) : sheet = other := by
  obtain ⟨rows, cols, formulas, _, _, _, _, _⟩ := sheet
  obtain ⟨rows', cols', formulas', _, _, _, _, _⟩ := other
  obtain rfl : rows = rows' := hrows
  obtain rfl : cols = cols' := hcols
  obtain rfl : formulas = formulas' := Vector.toList_inj.1 hformulas
  rfl

theorem validSize (sheet : Sheet) : ValidSize sheet.rows sheet.cols :=
  ⟨sheet.rows_pos, sheet.cols_pos, sheet.rows_le, sheet.size_le⟩

/-- Texts that fill a sheet and are not blank make up a sheet. -/
theorem exists_ofTexts_eq_ok (hsize : ValidSize rows cols) (hlength : texts.length = rows * cols)
    (hblank : ∀ text ∈ texts, allBlank text = false) :
    ∃ sheet, ofTexts rows cols texts = .ok sheet := by
  have hnone : ((texts.map Formula.mk).take (rows * cols)).findIdx? Formula.isBlank = none := by
    rw [List.findIdx?_eq_none_iff]
    intro formula hformula
    obtain ⟨text, htext, rfl⟩ := List.mem_map.1 (List.mem_of_mem_take hformula)
    exact hblank text htext
  unfold ofTexts
  rw [dif_pos hsize]
  dsimp only
  split
  · rename_i place hplace
    cases hnone.symm.trans hplace
  · rw [dif_pos (by rwa [List.length_map])]
    exact ⟨_, rfl⟩

def ofFormulas (rows cols : Nat) (formulas : Vector Formula (rows * cols))
    (h : ValidSize rows cols ∧ ∀ formula ∈ formulas, formula.isBlank = false) : Sheet where
  rows := rows
  cols := cols
  formulas := formulas
  rows_pos := h.1.1
  cols_pos := h.1.2.1
  rows_le := h.1.2.2.1
  size_le := h.1.2.2.2
  not_blank := h.2

/-- The formula of a cell is the one in its place. -/
theorem formula?_eq_getElem? (inside : sheet.Holds cell) :
    sheet.formula? cell = sheet.formulas.toList[cell.row * sheet.cols + cell.col]? := by
  have hplace := index_lt inside
  simp [formula?, index?, inside, index, hplace]

end Sheet

end PostfixSheet
