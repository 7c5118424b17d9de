/-
What references lead to.

A reference designates a row and a column number if it is one letter and digits.  It is
malformed if it designates nothing, or a number that no word holds.  Only where the cell lies
depends on the size of the sheet.
-/
import PostfixSheet.Proofs.Naming
import PostfixSheet.Proofs.Reading

namespace PostfixSheet

open Text

namespace Address

variable {text : String} {letter : Char} {row number rows cols : Nat}

/-- The letter of a row, in one case or the other. -/
def Letters (row : Nat) (letter : Char) : Prop :=
  row < maxRows ∧
    (letter = Char.ofNat ('A'.toNat + row) ∨ letter = Char.ofNat ('a'.toNat + row))

/-- A text is the letter of a row and after it the digits of a column number, and nothing
else. -/
def Designates (text : String) (row number : Nat) : Prop :=
  ∃ letter digits, text.toList = letter :: digits ∧ Letters row letter ∧ digits ≠ [] ∧
    (∀ c ∈ digits, c.isDigit = true) ∧ digitsValue digits = number

theorem Letters.row_eq (h : Letters row letter) :
    letter.isAlpha = true ∧ rowOfLetter letter = row := by
  have hletters : ∀ row < maxRows,
      ((Char.ofNat ('A'.toNat + row)).isAlpha = true ∧
        rowOfLetter (Char.ofNat ('A'.toNat + row)) = row) ∧
      (Char.ofNat ('a'.toNat + row)).isAlpha = true ∧
        rowOfLetter (Char.ofNat ('a'.toNat + row)) = row := by
    decide
  obtain ⟨hrow, rfl | rfl⟩ := h
  · exact (hletters row hrow).1
  · exact (hletters row hrow).2

theorem exists_letters (h : letter.isAlpha = true) : ∃ row, Letters row letter := by
  have hback : Char.ofNat letter.toNat = letter := Char.ofNat_toNat letter
  rcases Bool.or_eq_true_iff.1 h with hupper | hlower
  · have hcode : 65 ≤ letter.toNat ∧ letter.toNat ≤ 90 := of_decide_eq_true hupper
    have hrow : letter.toNat - 65 < 26 := by omega
    refine ⟨letter.toNat - 65, hrow, Or.inl ?_⟩
    change letter = Char.ofNat (65 + (letter.toNat - 65))
    rw [Nat.add_sub_of_le hcode.1, hback]
  · have hcode : 97 ≤ letter.toNat ∧ letter.toNat ≤ 122 :=
      (Bool.and_eq_true_iff.1 hlower).imp of_decide_eq_true of_decide_eq_true
    have hrow : letter.toNat - 97 < 26 := by omega
    refine ⟨letter.toNat - 97, hrow, Or.inr ?_⟩
    change letter = Char.ofNat (97 + (letter.toNat - 97))
    rw [Nat.add_sub_of_le hcode.1, hback]

/-- The letter arithmetic stays within the alphabet. -/
theorem rowOfLetter_lt (h : letter.isAlpha = true) :
    'A'.toNat ≤ letter.toUpper.toNat ∧ rowOfLetter letter < maxRows := by
  have hletters : ∀ row < maxRows,
      'A'.toNat ≤ (Char.ofNat ('A'.toNat + row)).toUpper.toNat ∧
      'A'.toNat ≤ (Char.ofNat ('a'.toNat + row)).toUpper.toNat := by
    decide
  obtain ⟨row, hrow⟩ := exists_letters h
  rw [hrow.row_eq.2]
  obtain ⟨hless, rfl | rfl⟩ := hrow
  · exact ⟨(hletters row hless).1, hless⟩
  · exact ⟨(hletters row hless).2, hless⟩

/-- What a text is taken apart into is what it designates, if a word holds the number. -/
theorem parts?_eq_some_iff :
    parts? text = some (row, number) ↔ Designates text row number ∧ number ≤ maxWord := by
  unfold parts?
  constructor
  · intro h
    split at h
    · cases h
    · rename_i letter digits htext
      split at h
      · rename_i hform
        obtain ⟨hne, hall⟩ := isDigits_iff.1 hform.2
        obtain ⟨value, hvalue, hpair⟩ := Option.map_eq_some_iff.1 h
        cases hpair
        obtain ⟨hnumber, hfits⟩ := word?_eq_some_iff.1 hvalue
        obtain ⟨row, hrow⟩ := exists_letters hform.1
        rw [hrow.row_eq.2]
        exact ⟨⟨letter, digits, htext, hrow, hne, hall, hnumber⟩, hfits⟩
      · cases h
  · rintro ⟨⟨letter, digits, htext, hrow, hne, hall, hnumber⟩, hfits⟩
    simp only [htext, hrow.row_eq, isDigits_iff.2 ⟨hne, hall⟩,
      word?_eq_some_iff.2 ⟨hnumber, hfits⟩, and_self, if_true, Option.map_some]

theorem parts?_eq_none_iff :
    parts? text = none ↔ ∀ row number, Designates text row number → maxWord < number := by
  constructor
  · intro h row number hdesignates
    by_contra hfits
    have hparts := parts?_eq_some_iff.2 ⟨hdesignates, Nat.le_of_not_lt hfits⟩
    rw [h] at hparts
    cases hparts
  · intro h
    cases hparts : parts? text with
    | none => rfl
    | some found =>
        obtain ⟨row, number⟩ := found
        obtain ⟨hdesignates, hfits⟩ := parts?_eq_some_iff.1 hparts
        exact absurd hfits (Nat.not_le_of_lt (h row number hdesignates))

theorem locate_eq_malformed_iff :
    locate text rows cols = .error .malformed ↔ parts? text = none := by
  unfold locate
  split
  · rename_i hnone
    exact iff_of_true rfl hnone
  · rename_i hsome
    simp [hsome]
  · rename_i hsome
    split <;> simp [hsome]

/-- A designated number that a word holds leads to a cell if the cell lies in the sheet, and
otherwise outside it.  Number zero lies outside every sheet. -/
theorem locate_of_parts? (h : parts? text = some (row, number)) :
    locate text rows cols =
      if row < rows ∧ 1 ≤ number ∧ number ≤ cols then .ok ⟨row, number - 1⟩
      else .error (.outside rows cols) := by
  unfold locate
  rw [h]
  cases number with
  | zero => simp
  | succ col =>
      have hnumber : (row < rows ∧ 1 ≤ col + 1 ∧ col + 1 ≤ cols) ↔ row < rows ∧ col < cols := by
        omega
      simp only [hnumber, Nat.add_sub_cancel]

/-- A reference is malformed, whatever the size of the sheet, exactly if it designates no
cell, or only a column number that no word holds.  Otherwise it leads to the designated cell
if the sheet has it, in larger sheets too, and lies outside the sheet if not. -/
theorem locate_of_designates (text : String) (rows cols : Nat) :
    (locate text rows cols = .error .malformed ↔
      ∀ row number, Designates text row number → maxWord < number) ∧
    (∀ row number, Designates text row number → number ≤ maxWord →
      (locate text rows cols = .ok ⟨row, number - 1⟩ ↔
        row < rows ∧ 1 ≤ number ∧ number ≤ cols) ∧
      (locate text rows cols = .error (.outside rows cols) ↔
        ¬(row < rows ∧ 1 ≤ number ∧ number ≤ cols))) ∧
    (∀ rows' cols', locate text rows' cols' = .error .malformed ↔
      locate text rows cols = .error .malformed) ∧
    (∀ cell, locate text rows cols = .ok cell → ∀ rows' cols', rows ≤ rows' → cols ≤ cols' →
      locate text rows' cols' = .ok cell) ∧
    ∀ letter digits, text.toList = letter :: digits → letter.isAlpha = true →
      'A'.toNat ≤ letter.toUpper.toNat ∧ rowOfLetter letter < maxRows := by
  refine ⟨locate_eq_malformed_iff.trans parts?_eq_none_iff, ?_, ?_, ?_, ?_⟩
  · intro row number hdesignates hfits
    rw [locate_of_parts? (parts?_eq_some_iff.2 ⟨hdesignates, hfits⟩)]
    by_cases hinside : row < rows ∧ 1 ≤ number ∧ number ≤ cols
    · simp [hinside]
    · simp [hinside]
  · intro rows' cols'
    rw [locate_eq_malformed_iff, locate_eq_malformed_iff]
  · intro cell hcell rows' cols' hrows hcols
    exact locate_mono hrows hcols hcell
  · intro letter digits _ hletter
    exact rowOfLetter_lt hletter

namespace LocatingWitness

/-- Column number zero is no malformed reference, but lies outside. -/
theorem locate_of_designates_zero :
    Designates "b00" 1 0 ∧ 0 ≤ maxWord ∧ locate "b00" 3 4 = .error (.outside 3 4) := by
  have hdesignates : Designates "b00" 1 0 :=
    ⟨'b', ['0', '0'], rfl, by unfold Letters; decide, by simp, by simp, rfl⟩
  obtain ⟨-, hplace, -⟩ := locate_of_designates "b00" 3 4
  exact ⟨hdesignates, Nat.zero_le _,
    (hplace 1 0 hdesignates (Nat.zero_le _)).2.2 (by decide)⟩

end LocatingWitness

end Address

end PostfixSheet
