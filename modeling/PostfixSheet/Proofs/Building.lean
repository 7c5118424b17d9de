/-
Which texts make up a sheet, and where in it they stand.

`BuildRefused` says what is wrong with texts that make up none: the size, or the first text,
in order, that is blank or finds no cell left, or that they come to an end too soon.  In a
sheet that is made up, cells and places belong together one by one, and `LaidOut` says which
text a cell has.
-/
import Mathlib.Data.List.Basic
import PostfixSheet.Proofs.Reading

namespace PostfixSheet

open Text

/-- Why texts make up no sheet of this size: the first thing that is wrong. -/
inductive BuildRefused (rows cols : Nat) (texts : List String) : BuildFault → Prop
  | dimensions : ¬Sheet.ValidSize rows cols → BuildRefused rows cols texts (.dimensions rows cols)
  | blank {before after : List String} {text : String} : Sheet.ValidSize rows cols →
      texts = before ++ text :: after → before.length < rows * cols →
      (∀ other ∈ before, ∃ c ∈ other.toList, isBlank c = false) →
      (∀ c ∈ text.toList, isBlank c = true) →
      BuildRefused rows cols texts (.blank ⟨before.length / cols, before.length % cols⟩)
  /-- There is a text too many, whatever is in it. -/
  | tooMany {before after : List String} {text : String} : Sheet.ValidSize rows cols →
      texts = before ++ text :: after → before.length = rows * cols →
      (∀ other ∈ before, ∃ c ∈ other.toList, isBlank c = false) →
      BuildRefused rows cols texts (.count (rows * cols) (rows * cols + 1))
  | tooFew : Sheet.ValidSize rows cols → texts.length < rows * cols →
      (∀ text ∈ texts, ∃ c ∈ text.toList, isBlank c = false) →
      BuildRefused rows cols texts (.count (rows * cols) texts.length)

namespace Sheet

variable {sheet : Sheet} {rows cols : Nat} {texts : List String} {fault : BuildFault}
  {cell : Address}

/-- A sheet has these texts in its cells, row by row. -/
structure LaidOut (sheet : Sheet) (rows cols : Nat) (texts : List String) : Prop where
  size : sheet.rows = rows ∧ sheet.cols = cols
  /-- There are cells at these addresses and at no others. -/
  found : ∀ cell, (∃ place, sheet.index? cell = some place) ↔ cell.row < rows ∧ cell.col < cols
  /-- The cell that is found at an address has this address. -/
  addressed : ∀ cell place, sheet.index? cell = some place → sheet.address place = cell
  written : ∀ cell place, sheet.index? cell = some place →
    texts[cell.row * cols + cell.col]? = some sheet.formulas[place].text
  /-- The place of a cell lies among the texts, and fits a word. -/
  in_range : ∀ cell place, sheet.index? cell = some place →
    place = cell.row * cols + cell.col ∧ cell.row * cols + cell.col < texts.length ∧
      texts.length ≤ maxWord
  distinct : ∀ left right place, sheet.index? left = some place →
    sheet.index? right = some place → left = right
  /-- Every cell is found at some address. -/
  reached : ∀ place, ∃ cell, sheet.index? cell = some place

theorem validSize_iff :
    ValidSize rows cols ↔ 1 ≤ rows ∧ rows ≤ 26 ∧ 1 ≤ cols ∧ rows * cols ≤ maxWord := by
  unfold ValidSize Address.maxRows
  omega

/-- A blank formula is looked for among the texts that there are cells for. -/
theorem findIdx?_isBlank (count : Nat) (texts : List String) :
    ((texts.map Formula.mk).take count).findIdx? Formula.isBlank =
      (texts.take count).findIdx? allBlank := by
  rw [← List.map_take, List.findIdx?_map]
  rfl

theorem ofTexts_of_blank (hsize : ValidSize rows cols) {place : Nat}
    (hblank : (texts.take (rows * cols)).findIdx? allBlank = some place) :
    ofTexts rows cols texts = .error (.blank (addressIn cols place)) := by
  rw [← findIdx?_isBlank] at hblank
  unfold ofTexts
  rw [dif_pos hsize]
  dsimp only
  split
  · rename_i found hfound
    cases hfound.symm.trans hblank
    rfl
  · rename_i hnone
    cases hnone.symm.trans hblank

theorem ofTexts_of_length_ne (hsize : ValidSize rows cols)
    (hnone : ∀ text ∈ texts.take (rows * cols), ∃ c ∈ text.toList, isBlank c = false)
    (hlength : texts.length ≠ rows * cols) :
    ofTexts rows cols texts =
      .error (.count (rows * cols) (min texts.length (rows * cols + 1))) := by
  have hfound : (texts.take (rows * cols)).findIdx? allBlank = none :=
    List.findIdx?_eq_none_iff.2 fun text htext => allBlank_eq_false_iff.2 (hnone text htext)
  rw [← findIdx?_isBlank] at hfound
  unfold ofTexts
  rw [dif_pos hsize]
  dsimp only
  split
  · rename_i place hplace
    cases hplace.symm.trans hfound
  · rw [dif_neg (by rwa [List.length_map]), List.length_map]

theorem ofTexts_of_refused (h : BuildRefused rows cols texts fault) :
    ofTexts rows cols texts = .error fault := by
  cases h with
  | dimensions hbad => exact dif_neg hbad
  | @blank before after text hsize hsplit hroom hbefore hblank =>
      apply ofTexts_of_blank hsize
      have hnone : before.findIdx? allBlank = none :=
        List.findIdx?_eq_none_iff.2 fun other hother =>
          allBlank_eq_false_iff.2 (hbefore other hother)
      have htext : allBlank text = true := List.all_eq_true.2 hblank
      obtain ⟨more, hmore⟩ := Nat.exists_eq_add_of_lt hroom
      have htake : texts.take (rows * cols) = before ++ text :: after.take more := by
        rw [hsplit, hmore, Nat.add_assoc, List.take_length_add_append, List.take_succ_cons]
      rw [htake, List.findIdx?_append, hnone, List.findIdx?_cons, if_pos htext]
      simp
  | @tooMany before after text hsize hsplit hfull hbefore =>
      have htake : texts.take (rows * cols) = before := by
        rw [hsplit, ← hfull, List.take_left]
      have hlong : rows * cols < texts.length := by
        rw [hsplit, ← hfull]
        simp
      rw [ofTexts_of_length_ne hsize (htake.symm ▸ hbefore) (Nat.ne_of_gt hlong),
        Nat.min_eq_right hlong]
  | tooFew hsize hshort hblanks =>
      have hall : texts.take (rows * cols) = texts := List.take_of_length_le (Nat.le_of_lt hshort)
      rw [ofTexts_of_length_ne hsize (hall.symm ▸ hblanks) (Nat.ne_of_lt hshort),
        Nat.min_eq_left (Nat.le_succ_of_le (Nat.le_of_lt hshort))]

theorem built_or_refused (rows cols : Nat) (texts : List String) :
    (∃ sheet, ofTexts rows cols texts = .ok sheet) ∨
      ∃ fault, BuildRefused rows cols texts fault := by
  by_cases hsize : ValidSize rows cols
  · have hsplit := List.take_append_drop (rows * cols) texts
    cases hfound : (texts.take (rows * cols)).find? allBlank with
    | some text =>
        obtain ⟨hblank, before, after, htake, hbefore⟩ := List.find?_eq_some_iff_append.1 hfound
        have hroom : before.length < rows * cols := by
          have hlength := congrArg List.length htake
          simp only [List.length_take, List.length_append, List.length_cons] at hlength
          omega
        rw [htake, List.append_assoc, List.cons_append] at hsplit
        refine Or.inr ⟨_, .blank hsize hsplit.symm hroom ?_ (List.all_eq_true.1 hblank)⟩
        intro other hother
        exact allBlank_eq_false_iff.1 (by simpa using hbefore other hother)
    | none =>
        have hblanks : ∀ text ∈ texts.take (rows * cols),
            ∃ c ∈ text.toList, isBlank c = false := fun text htext =>
          allBlank_eq_false_iff.1 (Bool.eq_false_iff.2 (List.find?_eq_none.1 hfound text htext))
        rcases Nat.lt_trichotomy texts.length (rows * cols) with hshort | hfull | hlong
        · rw [List.take_of_length_le (Nat.le_of_lt hshort)] at hblanks
          exact Or.inr ⟨_, .tooFew hsize hshort hblanks⟩
        · rw [List.take_of_length_le (Nat.le_of_eq hfull)] at hblanks
          exact Or.inl (exists_ofTexts_eq_ok hsize hfull fun text htext =>
            allBlank_eq_false_iff.2 (hblanks text htext))
        · rw [List.drop_eq_getElem_cons hlong] at hsplit
          have hlength : (texts.take (rows * cols)).length = rows * cols :=
            List.length_take_of_le (Nat.le_of_lt hlong)
          exact Or.inr ⟨_, .tooMany hsize hsplit.symm hlength hblanks⟩
  · exact Or.inr ⟨_, .dimensions hsize⟩

/-- Texts are refused exactly for the first thing that is wrong with them. -/
theorem ofTexts_eq_error_iff :
    ofTexts rows cols texts = .error fault ↔ BuildRefused rows cols texts fault := by
  constructor
  · intro hfailed
    rcases built_or_refused rows cols texts with ⟨sheet, hbuilt⟩ | ⟨other, hrefused⟩
    · cases hbuilt.symm.trans hfailed
    · cases (ofTexts_of_refused hrefused).symm.trans hfailed
      exact hrefused
  · exact ofTexts_of_refused

theorem exists_ofTexts_eq_ok_iff :
    (∃ sheet, ofTexts rows cols texts = .ok sheet) ↔
      ValidSize rows cols ∧ texts.length = rows * cols ∧
        ∀ text ∈ texts, ∃ c ∈ text.toList, isBlank c = false := by
  constructor
  · rintro ⟨sheet, hbuilt⟩
    obtain ⟨rfl, rfl, hformulas⟩ := of_ofTexts_eq_ok hbuilt
    refine ⟨sheet.validSize, ?_, ?_⟩
    · have hlength := congrArg List.length hformulas
      simpa using hlength.symm
    · intro text htext
      have hmem : Formula.mk text ∈ sheet.formulas.toList :=
        hformulas ▸ List.mem_map_of_mem htext
      exact allBlank_eq_false_iff.1 (sheet.not_blank _ (by simpa using hmem))
  · rintro ⟨hsize, hlength, hblanks⟩
    exact exists_ofTexts_eq_ok hsize hlength fun text htext =>
      allBlank_eq_false_iff.2 (hblanks text htext)

theorem index?_eq_some_iff {place : Fin sheet.size} :
    sheet.index? cell = some place ↔
      ∃ inside : sheet.Holds cell, sheet.index cell inside = place := by
  unfold index?
  split
  · rename_i inside
    simp [inside]
  · rename_i houtside
    simp [houtside]

theorem laidOut_of_ofTexts_eq_ok (hbuilt : ofTexts rows cols texts = .ok sheet) :
    sheet.LaidOut rows cols texts := by
  obtain ⟨hsize, hlength, -⟩ := exists_ofTexts_eq_ok_iff.1 ⟨sheet, hbuilt⟩
  obtain ⟨rfl, rfl, hformulas⟩ := of_ofTexts_eq_ok hbuilt
  constructor
  case size => exact ⟨rfl, rfl⟩
  case found =>
    intro cell
    constructor
    · rintro ⟨place, hplace⟩
      exact (index?_eq_some_iff.1 hplace).1
    · intro inside
      exact ⟨sheet.index cell inside, index?_eq_some_iff.2 ⟨inside, rfl⟩⟩
  case addressed =>
    intro cell place hplace
    obtain ⟨inside, rfl⟩ := index?_eq_some_iff.1 hplace
    exact address_index inside
  case written =>
    intro cell place hplace
    obtain ⟨inside, rfl⟩ := index?_eq_some_iff.1 hplace
    have hformula := formula?_eq_getElem? inside
    rw [hformulas, List.getElem?_map, formula?, hplace] at hformula
    obtain ⟨text, htext, hsame⟩ := Option.map_eq_some_iff.1 hformula.symm
    rw [htext]
    exact congrArg (fun formula => some formula.text) hsame
  case in_range =>
    intro cell place hplace
    obtain ⟨inside, rfl⟩ := index?_eq_some_iff.1 hplace
    exact ⟨rfl, hlength ▸ index_lt inside, hlength ▸ sheet.size_le⟩
  case distinct =>
    intro left right place hleft hright
    obtain ⟨hl, rfl⟩ := index?_eq_some_iff.1 hleft
    obtain ⟨hr, hsame⟩ := index?_eq_some_iff.1 hright
    exact ((index_inj hr hl).1 hsame).symm
  case reached =>
    intro place
    exact ⟨sheet.address place,
      index?_eq_some_iff.2 ⟨sheet.holds_address place, sheet.index_address place⟩⟩

/-- Texts make up a sheet exactly if the sheet can have this size, there is one text for every
cell and none is blank; otherwise they are refused for the first thing that is wrong.  Every
cell of the sheet is found at its own address, and at no other, with the text that stands in
its place. -/
theorem ofTexts_lays_out (rows cols : Nat) (texts : List String) :
    ((∃ sheet, ofTexts rows cols texts = .ok sheet) ↔
      (1 ≤ rows ∧ rows ≤ 26 ∧ 1 ≤ cols ∧ rows * cols ≤ maxWord) ∧
        texts.length = rows * cols ∧ ∀ text ∈ texts, ∃ c ∈ text.toList, isBlank c = false) ∧
    (∀ fault, ofTexts rows cols texts = .error fault ↔ BuildRefused rows cols texts fault) ∧
    ∀ sheet, ofTexts rows cols texts = .ok sheet → sheet.LaidOut rows cols texts := by
  refine ⟨?_, fun fault => ofTexts_eq_error_iff, fun sheet => laidOut_of_ofTexts_eq_ok⟩
  rw [← validSize_iff]
  exact exists_ofTexts_eq_ok_iff

namespace BuildingWitness

def written : List String := ["1", "A1 A1 +", " 3", "7", "5 ", "B1"]

/-- The middle cell of the second row is found in its place, and there is none past the end of
that row.  A text too many matters only if no blank one comes before it. -/
theorem ofTexts_lays_out_rows :
    (∃ sheet, ofTexts 2 3 written = .ok sheet ∧
      ∃ place, sheet.index? ⟨1, 1⟩ = some place ∧ place.val = 4 ∧
        sheet.address place = ⟨1, 1⟩ ∧ sheet.formulas[place].text = "5 " ∧
        ¬∃ place, sheet.index? ⟨1, 3⟩ = some place) ∧
      ofTexts 1 2 ["7", "\u00a0\x0b", "8"] = .error (.blank ⟨0, 1⟩) ∧
      ofTexts 1 1 ["7", " "] = .error (.count 1 2) := by
  have hnone : ∀ text ∈ written, allBlank text = false := by decide +kernel
  have hblanks : ∀ text ∈ written, ∃ c ∈ text.toList, isBlank c = false := fun text htext =>
    allBlank_eq_false_iff.1 (hnone text htext)
  have hseven : ∀ text ∈ ["7"], ∃ c ∈ text.toList, isBlank c = false := by
    intro text htext
    rw [List.mem_singleton.1 htext]
    exact allBlank_eq_false_iff.1 (by decide)
  have hspaces : allBlank "\u00a0\x0b" = true := by decide
  refine ⟨?_, ?_, ?_⟩
  · obtain ⟨hok, -, hlaid⟩ := ofTexts_lays_out 2 3 written
    obtain ⟨sheet, hbuilt⟩ := hok.2 ⟨by decide, rfl, hblanks⟩
    have hlayout := hlaid sheet hbuilt
    obtain ⟨place, hplace⟩ := (hlayout.found ⟨1, 1⟩).2 (by decide)
    have hwritten := hlayout.written _ place hplace
    refine ⟨sheet, hbuilt, place, hplace, (hlayout.in_range _ place hplace).1,
      hlayout.addressed _ place hplace, (Option.some.inj hwritten).symm, ?_⟩
    rw [hlayout.found]
    decide
  · exact ((ofTexts_lays_out 1 2 _).2.1 _).2
      (@BuildRefused.blank 1 2 _ ["7"] ["8"] _ (by decide) rfl (by decide) hseven
        (List.all_eq_true.1 hspaces))
  · exact ((ofTexts_lays_out 1 1 _).2.1 _).2
      (@BuildRefused.tooMany 1 1 _ ["7"] [] _ (by decide) rfl rfl hseven)

end BuildingWitness

end Sheet

end PostfixSheet
