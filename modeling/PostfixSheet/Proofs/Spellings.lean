/-
The spellings of names.

The name of a cell may be written with its letter in lower case and with zeros before its
number.  In every spelling it is a reference that leads to the cell, and from a reference
the name of its cell is found by undoing the spelling.
-/
import PostfixSheet.Proofs.Locating
import PostfixSheet.Proofs.Respelling

namespace PostfixSheet

open Text

namespace Text

variable {digits : List Char} {c : Char}

theorem digitsValue_singleton (c : Char) : digitsValue [c] = c.toNat - '0'.toNat := by
  simp [digitsValue, Nat.ofDigitChars_cons, Nat.ofDigitChars_nil]

theorem toDigits_digitsValue_singleton (h : c.isDigit = true) :
    digitsValue [c] < 10 ∧ Nat.toDigits 10 (digitsValue [c]) = [c] := by
  have hcode : 48 ≤ c.toNat ∧ c.toNat ≤ 57 :=
    (Bool.and_eq_true_iff.1 h).imp of_decide_eq_true of_decide_eq_true
  have hvalue : digitsValue [c] = c.toNat - 48 := digitsValue_singleton c
  have hless : c.toNat - 48 < 10 := by omega
  have hchars : ∀ d < 10, Nat.digitChar d = Char.ofNat (48 + d) := by decide
  rw [hvalue, Nat.toDigits_of_lt_base hless, hchars _ hless, Nat.add_sub_of_le hcode.1,
    Char.ofNat_toNat]
  exact ⟨hless, rfl⟩

/-- Without the zeros in front, digits are those that are written for their number. -/
theorem dropWhile_zero (h : ∀ c ∈ digits, c.isDigit = true) :
    digits.dropWhile (· == '0') =
      if digitsValue digits = 0 then [] else Nat.toDigits 10 (digitsValue digits) := by
  induction digits using List.reverseRecOn with
  | nil => rfl
  | append_singleton digits last ih =>
      have hdigits := ih fun c hc => h c (List.mem_append_left [last] hc)
      obtain ⟨hless, hlast⟩ := toDigits_digitsValue_singleton (h last (by simp))
      have hvalue : digitsValue (digits ++ [last]) =
          10 * digitsValue digits + digitsValue [last] := by
        rw [Decimal.digitsValue_append, Nat.mul_comm]
        rfl
      rw [List.dropWhile_append, hvalue, hdigits]
      by_cases hzero : digitsValue digits = 0
      · rw [if_pos hzero, hzero, Nat.mul_zero, Nat.zero_add, hlast]
        by_cases hnone : last = '0'
        · subst hnone
          rfl
        · have hpositive : digitsValue [last] ≠ 0 := by
            intro hdigit
            rw [hdigit] at hlast
            exact hnone (List.cons.inj hlast).1.symm
          simp [hpositive, hnone]
      · have hpositive : 0 < digitsValue digits := Nat.pos_of_ne_zero hzero
        have hmore : 10 * digitsValue digits + digitsValue [last] ≠ 0 := by omega
        rw [if_neg hzero, if_neg hmore,
          ← Nat.toDigits_append_toDigits (by decide) hpositive hless, hlast]
        simp [Nat.toDigits_ne_nil]

theorem toDigits_inj {m n : Nat} (h : Nat.toDigits 10 m = Nat.toDigits 10 n) : m = n := by
  have hvalues := congrArg digitsValue h
  rwa [digitsValue_toDigits, digitsValue_toDigits] at hvalues

/-- Digits end where something else comes. -/
theorem append_cons_inj {left right left' right' : List Char} (hc : c.isDigit = false)
    (hleft : ∀ d ∈ left, d.isDigit = true) (hleft' : ∀ d ∈ left', d.isDigit = true)
    (h : left ++ c :: right = left' ++ c :: right') : left = left' ∧ right = right' := by
  have hstop : ∀ rest : List Char, ∀ d, (c :: rest).head? = some d → d.isDigit = false := by
    rintro rest d ⟨⟩
    exact hc
  have hparts := Decimal.takeWhile_isDigit hleft (hstop right)
  have hparts' := Decimal.takeWhile_isDigit hleft' (hstop right')
  rw [h] at hparts
  exact ⟨hparts.1.symm.trans hparts'.1,
    (List.cons.inj (hparts.2.symm.trans hparts'.2)).2⟩

end Text

namespace Address

variable {text : String} {row number : Nat} {cell other : Address}

/-- A name in another spelling: with its letter in lower case, or as it is, and with so many
zeros before its number. -/
def spelled (lower : Bool) (zeros : Nat) (name : String) : String :=
  match name.toList with
  | [] => name
  | letter :: digits =>
    String.ofList
      ((if lower then letter.toLower else letter) :: (List.replicate zeros '0' ++ digits))

/-- A reference with its letter in upper case and without zeros before its number. -/
def plain (text : String) : String :=
  match text.toList with
  | [] => text
  | letter :: digits => String.ofList (letter.toUpper :: digits.dropWhile (· == '0'))

theorem Designates.unique {row' number' : Nat} (h : Designates text row number)
    (h' : Designates text row' number') : row = row' ∧ number = number' := by
  obtain ⟨letter, digits, htext, hrow, -, -, rfl⟩ := h
  obtain ⟨letter', digits', htext', hrow', -, -, rfl⟩ := h'
  obtain ⟨rfl, rfl⟩ := List.cons.inj (htext.symm.trans htext')
  exact ⟨hrow.row_eq.2.symm.trans hrow'.row_eq.2, rfl⟩

theorem ofName?_eq_some_iff :
    ofName? text = some cell ↔
      Designates text cell.row (cell.col + 1) ∧ cell.col + 1 ≤ maxWord := by
  rw [← parts?_eq_some_iff]
  unfold ofName?
  constructor
  · intro h
    split at h
    · rename_i row number hparts
      cases h
      exact hparts
    · cases h
  · intro h
    simp only [h]

/-- What designates a cell is a reference, and never a number. -/
theorem ofText_of_designates (h : Designates text row number) :
    Token.ofText text = .reference text := by
  obtain ⟨letter, digits, htext, hrow, hne, hall, -⟩ := h
  rw [← String.ofList_toList (s := text), htext]
  exact Token.ofText_of_name hrow.row_eq.1 hne hall

theorem toList_name_of_lt (hrow : cell.row < maxRows) (hcol : cell.col < maxWord) :
    cell.name.toList = Char.ofNat ('A'.toNat + cell.row) :: Nat.toDigits 10 (cell.col + 1) := by
  simp [name, rowLetter?, hrow, nextWord_of_lt hcol]

theorem toList_name_of_le (h : maxRows ≤ cell.row) :
    cell.name.toList = 'R' :: (Nat.toDigits 10 (nextWord cell.row) ++
      'C' :: Nat.toDigits 10 (nextWord cell.col)) := by
  have hmarks : (toString "R").toList = ['R'] ∧ (toString "C").toList = ['C'] := ⟨rfl, rfl⟩
  simp [name, rowLetter?, Nat.not_lt_of_le h, hmarks]

/-- A name designates its cell in every spelling. -/
theorem designates_spelled (hrow : cell.row < maxRows) (hcol : cell.col < maxWord)
    (lower : Bool) (zeros : Nat) :
    Designates (spelled lower zeros cell.name) cell.row (cell.col + 1) := by
  have hlower : ∀ row < maxRows,
      (Char.ofNat ('A'.toNat + row)).toLower = Char.ofNat ('a'.toNat + row) := by
    decide
  have hall : ∀ c ∈ Nat.toDigits 10 (cell.col + 1), c.isDigit = true := fun c hc =>
    Decimal.isDigit_toDigits hc
  have hdigits := isDigits_iff.1
    (isDigits_replicate_zero_append Nat.toDigits_ne_nil hall zeros)
  unfold spelled
  rw [toList_name_of_lt hrow hcol]
  refine ⟨_, _, String.toList_ofList, ⟨hrow, ?_⟩, hdigits.1, hdigits.2, ?_⟩
  · cases lower with
    | false => exact Or.inl rfl
    | true => exact Or.inr (hlower cell.row hrow)
  · rw [digitsValue_replicate_zero_append, digitsValue_toDigits]

theorem spelled_false_zero (name : String) : spelled false 0 name = name := by
  unfold spelled
  split
  · rfl
  · rename_i letter digits htext
    rw [← String.ofList_toList (s := name), htext]
    rfl

theorem designates_name (hrow : cell.row < maxRows) (hcol : cell.col < maxWord) :
    Designates cell.name cell.row (cell.col + 1) :=
  spelled_false_zero cell.name ▸ designates_spelled hrow hcol false 0

theorem not_designates_name (h : maxRows ≤ cell.row) : ¬Designates cell.name row number := by
  rintro ⟨letter, digits, htext, -, -, hall, -⟩
  rw [toList_name_of_le h] at htext
  obtain ⟨-, rfl⟩ := List.cons.inj htext
  have hmark := hall 'C' (by simp)
  cases hmark

/-- No two cells have the same name, in whichever of the two forms, as long as row and column
can be counted from one. -/
theorem name_injOn :
    Set.InjOn name {cell | cell.row < maxWord ∧ cell.col < maxWord} := by
  rintro cell ⟨hrowWord, hcolWord⟩ other ⟨hrowWord', hcolWord'⟩ hname
  rcases Nat.lt_or_ge cell.row maxRows with hrow | hrow
  · have hfirst := designates_name hrow hcolWord
    rw [hname] at hfirst
    rcases Nat.lt_or_ge other.row maxRows with hrow' | hrow'
    · obtain ⟨hsame, hcol⟩ := hfirst.unique (designates_name hrow' hcolWord')
      exact congrArg₂ Address.mk hsame (Nat.succ.inj hcol)
    · exact absurd hfirst (not_designates_name hrow')
  · rcases Nat.lt_or_ge other.row maxRows with hrow' | hrow'
    · have hsecond := designates_name hrow' hcolWord'
      rw [← hname] at hsecond
      exact absurd hsecond (not_designates_name hrow)
    · have htext := congrArg String.toList hname
      rw [toList_name_of_le hrow, toList_name_of_le hrow'] at htext
      obtain ⟨hrows, hcols⟩ := append_cons_inj (by decide)
        (fun c hc => Decimal.isDigit_toDigits hc) (fun c hc => Decimal.isDigit_toDigits hc)
        (List.cons.inj htext).2
      rw [nextWord_of_lt hrowWord, nextWord_of_lt hrowWord'] at hrows
      rw [nextWord_of_lt hcolWord, nextWord_of_lt hcolWord'] at hcols
      exact congrArg₂ Address.mk (Nat.succ.inj (toDigits_inj hrows))
        (Nat.succ.inj (toDigits_inj hcols))

/-- The name of a cell that a reference leads to is that reference in its plain spelling. -/
theorem name_of_ofName? (h : ofName? text = some cell) : cell.name = plain text := by
  obtain ⟨⟨letter, digits, htext, hrow, hne, hall, hnumber⟩, hcol⟩ := ofName?_eq_some_iff.1 h
  have hupper : ∀ row < maxRows,
      (Char.ofNat ('A'.toNat + row)).toUpper = Char.ofNat ('A'.toNat + row) ∧
      (Char.ofNat ('a'.toNat + row)).toUpper = Char.ofNat ('A'.toNat + row) := by
    decide
  have hletter : letter.toUpper = Char.ofNat ('A'.toNat + cell.row) := by
    obtain ⟨hless, rfl | rfl⟩ := hrow
    · exact (hupper cell.row hless).1
    · exact (hupper cell.row hless).2
  unfold plain
  rw [htext]
  simp only [hletter, dropWhile_zero hall, hnumber, Nat.succ_ne_zero, if_false]
  rw [← toList_name_of_lt hrow.1 hcol, String.ofList_toList]

/-- The name of a cell whose row has a letter, in every spelling, is a reference token with
the text as it is spelled, and the cell is found from it again, in every sheet that has the
cell.  From a reference the name is found by respelling it plainly.  Different cells have
different names as long as row and column are short of the largest word, and rows past the
last letter have names that are no references. -/
theorem name_spellings :
    (∀ cell : Address, cell.row < maxRows → cell.col < maxWord →
      spelled false 0 cell.name = cell.name ∧
      ∀ lower zeros,
        Token.ofText (spelled lower zeros cell.name) = .reference (spelled lower zeros cell.name) ∧
        ofName? (spelled lower zeros cell.name) = some cell ∧
        ∀ rows cols, cell.row < rows → cell.col < cols →
          locate (spelled lower zeros cell.name) rows cols = .ok cell) ∧
    (∀ text cell, ofName? text = some cell → cell.name = plain text) ∧
    Set.InjOn name {cell | cell.row < maxWord ∧ cell.col < maxWord} ∧
    ∀ cell : Address, cell.col < maxWord →
      ((ofName? cell.name).isSome ↔ cell.row < maxRows) ∧
      (maxRows ≤ cell.row → ∀ rows cols, locate cell.name rows cols = .error .malformed) := by
  refine ⟨?_, fun text cell h => name_of_ofName? h, name_injOn, ?_⟩
  · intro cell hrow hcol
    refine ⟨spelled_false_zero cell.name, fun lower zeros => ?_⟩
    have hdesignates := designates_spelled hrow hcol lower zeros
    refine ⟨ofText_of_designates hdesignates, ofName?_eq_some_iff.2 ⟨hdesignates, hcol⟩, ?_⟩
    intro rows cols hrows hcols
    exact locate_eq_ok_iff.2 ⟨parts?_eq_some_iff.2 ⟨hdesignates, hcol⟩, hrows, hcols⟩
  · intro cell hcol
    have hnone : maxRows ≤ cell.row → ∀ row number, ¬Designates cell.name row number :=
      fun hrow _ _ => not_designates_name hrow
    refine ⟨⟨fun hsome => ?_, fun hrow => ?_⟩, fun hrow rows cols => ?_⟩
    · obtain ⟨found, hfound⟩ := Option.isSome_iff_exists.1 hsome
      by_contra hrow
      exact hnone (Nat.le_of_not_lt hrow) _ _ (ofName?_eq_some_iff.1 hfound).1
    · rw [ofName?_eq_some_iff.2 ⟨designates_name hrow hcol, hcol⟩]
      rfl
    · rw [locate_eq_malformed_iff, parts?_eq_none_iff]
      exact fun row number h => absurd h (hnone hrow row number)

namespace SpellingWitness

/-- In this spelling a name looks like an exponent. -/
theorem name_spellings_exponent :
    spelled true 1 (name ⟨4, 4⟩) = "e05" ∧ Token.ofText "e05" = .reference "e05" ∧
      ofName? "e05" = some ⟨4, 4⟩ ∧ locate "e05" 5 7 = .ok ⟨4, 4⟩ := by
  have hspelled : spelled true 1 (name ⟨4, 4⟩) = "e05" := by decide +kernel
  obtain ⟨-, hspellings⟩ := name_spellings.1 ⟨4, 4⟩ (by decide) (by decide)
  obtain ⟨htoken, hname, hlocate⟩ := hspellings true 1
  rw [hspelled] at htoken hname hlocate
  exact ⟨hspelled, htoken, hname, hlocate 5 7 (by decide) (by decide)⟩

end SpellingWitness

end Address

end PostfixSheet
