/-
Which bytes are the text of a sheet.

`Describes` says it line by line: a header with two numbers, and then as many lines as the
sheet has cells, none of them blank.  Reading accepts exactly these bytes, and the sheet
that it gives has the formulas on those lines.
-/
import Mathlib.Data.List.Basic
import PostfixSheet.Document
import PostfixSheet.Proofs.Layout
import PostfixSheet.Proofs.Lines
import PostfixSheet.Proofs.Words

namespace PostfixSheet

open Text

section Answers

variable {ε ε' α β : Type} {x : Except ε α} {f : α → Except ε β} {change : ε → ε'}

theorem bind_eq_ok_iff {b : β} : x >>= f = .ok b ↔ ∃ a, x = .ok a ∧ f a = .ok b := by
  cases x <;> simp [bind, Except.bind]

theorem bind_eq_error_iff {e : ε} :
    x >>= f = .error e ↔ x = .error e ∨ ∃ a, x = .ok a ∧ f a = .error e := by
  cases x <;> simp [bind, Except.bind]

theorem mapError_eq_ok_iff {a : α} : x.mapError change = .ok a ↔ x = .ok a := by
  cases x <;> simp [Except.mapError]

theorem mapError_eq_error_iff {e : ε'} :
    x.mapError change = .error e ↔ ∃ e₀, x = .error e₀ ∧ change e₀ = e := by
  cases x <;> simp [Except.mapError]

/-- Steps one after the other fail with the fault of the first one that does, and nothing
after it is looked at. -/
theorem foldlM_eq_error_iff {step : β → α → Except ε β} {items : List α} {start : β} {e : ε} :
    items.foldlM step start = .error e ↔
      ∃ before item after middle, items = before ++ item :: after ∧
        before.foldlM step start = .ok middle ∧ step middle item = .error e := by
  constructor
  · intro h
    induction items generalizing start with
    | nil => cases h
    | cons item items ih =>
        rw [List.foldlM_cons] at h
        rcases bind_eq_error_iff.1 h with hfirst | ⟨next, hnext, hrest⟩
        · exact ⟨[], item, items, start, rfl, rfl, hfirst⟩
        · obtain ⟨before, last, after, middle, rfl, hbefore, hlast⟩ := ih hrest
          refine ⟨item :: before, last, after, middle, rfl, ?_, hlast⟩
          rw [List.foldlM_cons, hnext]
          exact hbefore
  · rintro ⟨before, item, after, middle, rfl, hbefore, hitem⟩
    rw [List.foldlM_append, hbefore]
    change (item :: after).foldlM step middle = .error e
    rw [List.foldlM_cons, hitem]
    rfl

end Answers

namespace Text

/-- A field spells a number: digits, perhaps with zeros in front and a plus sign before
them, for a number that a word holds. -/
def Spells (field : List Char) (number : Nat) : Prop :=
  ∃ digits, (field = digits ∨ field = '+' :: digits) ∧ digits ≠ [] ∧
    (∀ c ∈ digits, c.isDigit = true) ∧ digitsValue digits = number ∧ number ≤ maxWord

theorem isDigits_iff {cs : List Char} :
    isDigits cs = true ↔ cs ≠ [] ∧ ∀ c ∈ cs, c.isDigit = true := by
  simp [isDigits]

theorem word?_eq_some_iff {digits : List Char} {number : Nat} :
    word? digits = some number ↔ digitsValue digits = number ∧ number ≤ maxWord := by
  unfold word?
  split
  · rename_i hfits
    rw [Option.some.injEq]
    constructor
    · rintro rfl
      exact ⟨rfl, hfits⟩
    · exact fun h => h.1
  · rename_i hlarge
    constructor
    · exact fun h => by cases h
    · rintro ⟨rfl, hfits⟩
      exact absurd hfits hlarge

theorem dropPlus_of_isDigit {digits : List Char} (h : ∀ c ∈ digits, c.isDigit = true) :
    dropPlus digits = digits := by
  unfold dropPlus
  split
  · exact absurd (h '+' List.mem_cons_self) (by decide)
  · rfl

theorem count?_eq_some_iff {text : String} {number : Nat} :
    count? text = some number ↔ Spells text.toList number := by
  unfold count?
  constructor
  · intro h
    dsimp only at h
    split at h
    · rename_i hdigits
      obtain ⟨hne, hall⟩ := isDigits_iff.1 hdigits
      obtain ⟨hvalue, hfits⟩ := word?_eq_some_iff.1 h
      refine ⟨dropPlus text.toList, ?_, hne, hall, hvalue, hfits⟩
      unfold dropPlus
      split
      · rename_i hplus
        exact Or.inr hplus
      · exact Or.inl rfl
    · cases h
  · rintro ⟨digits, hfield, hne, hall, hvalue, hfits⟩
    have hdrop : dropPlus text.toList = digits := by
      rcases hfield with hfield | hfield
      · rw [hfield, dropPlus_of_isDigit hall]
      · rw [hfield, dropPlus]
    simp only [hdrop, if_pos (isDigits_iff.2 ⟨hne, hall⟩)]
    exact word?_eq_some_iff.2 ⟨hvalue, hfits⟩

theorem allBlank_eq_false_iff {text : String} :
    allBlank text = false ↔ ∃ c ∈ text.toList, isBlank c = false := by
  simp [allBlank]

end Text

/-- A line announces so many columns and rows: it is two numbers between blanks. -/
def Announces (line : String) (cols rows : Nat) : Prop :=
  ∃ colsField rowsField, WordsOf isBlank line.toList [colsField, rowsField] ∧
    Spells colsField cols ∧ Spells rowsField rows

/-- Bytes describe a sheet of so many columns and rows with these texts in its cells. -/
structure Describes (bytes : List UInt8) (cols rows : Nat) (texts : List String) : Prop where
  /-- The lines are a header and the texts. -/
  lines : ∃ header, LinesOf bytes (encode header :: texts.map encode) ∧
    Announces header cols rows
  cols_pos : 1 ≤ cols
  rows_pos : 1 ≤ rows
  rows_le : rows ≤ 26
  size_le : cols * rows ≤ maxWord
  length_texts : texts.length = cols * rows
  not_blank : ∀ text ∈ texts, ∃ c ∈ text.toList, isBlank c = false

namespace Header

theorem dimension_eq_ok_iff {field : String} {number : Nat} :
    dimension field = .ok number ↔ Spells field.toList number := by
  rw [← count?_eq_some_iff]
  unfold dimension
  split <;> simp_all

/-- The header with two numbers that have been read on a line, if they are the size of a
sheet. -/
def ofNumbers (line : String) (cols rows : Nat) : Except TextFault Header :=
  if cols = 0 then .error .zeroColumns
  else if rows = 0 then .error .zeroRows
  else if rows > Address.maxRows then .error (.tooManyRows rows)
  else if cols * rows > maxWord then .error (.dimension (trim line))
  else .ok { cols, rows }

theorem ofNumbers_eq_ok_iff {line : String} {cols rows : Nat} {header : Header} :
    ofNumbers line cols rows = .ok header ↔
      (cols = header.cols ∧ rows = header.rows) ∧
        Sheet.ValidSize header.rows header.cols := by
  unfold ofNumbers Sheet.ValidSize
  rw [Nat.mul_comm header.rows]
  constructor
  · intro h
    repeat' split at h
    all_goals cases h
    rename_i hcols hrows hletters hsize
    exact ⟨⟨rfl, rfl⟩, Nat.pos_of_ne_zero hrows, Nat.pos_of_ne_zero hcols,
      Nat.le_of_not_gt hletters, Nat.le_of_not_gt hsize⟩
  · rintro ⟨⟨rfl, rfl⟩, hrows, hcols, hletters, hsize⟩
    rw [if_neg (Nat.ne_of_gt hcols), if_neg (Nat.ne_of_gt hrows),
      if_neg (Nat.not_lt.2 hletters), if_neg (Nat.not_lt.2 hsize)]

theorem ofText_of_length_ne {line : String} (h : (words isBlank line).length ≠ 2) :
    ofText line = .error (.headerFields (words isBlank line).length) := by
  unfold ofText
  split
  · rename_i htwo
    exact absurd (congrArg List.length htwo) h
  · rfl

theorem ofText_of_words {line colsField rowsField : String}
    (h : words isBlank line = [colsField, rowsField]) :
    ofText line = (do
      let cols ← dimension colsField
      let rows ← dimension rowsField
      ofNumbers line cols rows) := by
  unfold ofText
  rw [h]
  rfl

/-- Once both fields have been read, the numbers decide. -/
theorem ofText_of_announces {line : String} {cols rows : Nat} (h : Announces line cols rows) :
    ofText line = ofNumbers line cols rows := by
  obtain ⟨colsField, rowsField, hwords, hcols, hrows⟩ := h
  have hcols' : dimension (String.ofList colsField) = .ok cols :=
    dimension_eq_ok_iff.2 (by simpa using hcols)
  have hrows' : dimension (String.ofList rowsField) = .ok rows :=
    dimension_eq_ok_iff.2 (by simpa using hrows)
  rw [ofText_of_words hwords.words_eq, hcols', hrows']
  rfl

/-- A header is read exactly if it announces a size that a sheet can have. -/
theorem ofText_eq_ok_iff {line : String} {header : Header} :
    ofText line = .ok header ↔
      Announces line header.cols header.rows ∧ Sheet.ValidSize header.rows header.cols := by
  constructor
  · intro h
    by_cases htwo : (words isBlank line).length = 2
    · obtain ⟨colsField, rowsField, hwords⟩ := List.length_eq_two.1 htwo
      rw [ofText_of_words hwords, bind_eq_ok_iff] at h
      obtain ⟨cols, hcols, h⟩ := h
      obtain ⟨rows, hrows, h⟩ := bind_eq_ok_iff.1 h
      obtain ⟨⟨rfl, rfl⟩, hsize⟩ := ofNumbers_eq_ok_iff.1 h
      exact ⟨⟨_, _, words_eq_iff.1 hwords, dimension_eq_ok_iff.1 hcols,
        dimension_eq_ok_iff.1 hrows⟩, hsize⟩
    · rw [ofText_of_length_ne htwo] at h
      cases h
  · rintro ⟨hannounces, hsize⟩
    rw [ofText_of_announces hannounces]
    exact ofNumbers_eq_ok_iff.2 ⟨⟨rfl, rfl⟩, hsize⟩

theorem dimension_ne_build (field : String) (fault : BuildFault) :
    dimension field ≠ .error (.build fault) := by
  unfold dimension
  split <;> simp

theorem ofNumbers_ne_build (line : String) (cols rows : Nat) (fault : BuildFault) :
    ofNumbers line cols rows ≠ .error (.build fault) := by
  unfold ofNumbers
  repeat' split
  all_goals simp

theorem ofText_ne_build (line : String) (fault : BuildFault) :
    ofText line ≠ .error (.build fault) := by
  intro h
  by_cases htwo : (words isBlank line).length = 2
  · obtain ⟨colsField, rowsField, hwords⟩ := List.length_eq_two.1 htwo
    rw [ofText_of_words hwords, bind_eq_error_iff] at h
    rcases h with h | ⟨cols, -, h⟩
    · exact dimension_ne_build _ _ h
    · rcases bind_eq_error_iff.1 h with h | ⟨rows, -, h⟩
      · exact dimension_ne_build _ _ h
      · exact ofNumbers_ne_build _ _ _ _ h
  · rw [ofText_of_length_ne htwo] at h
    cases h

end Header

namespace SheetText

variable {header : Header} {line : List UInt8} {rest : List (List UInt8)}
  {start final : Array String}

/-- A line is taken exactly if it has a text that is not blank, and there is a cell left
for it. -/
theorem takeLine_eq_ok_iff :
    takeLine header start line = .ok final ↔
      ∃ text, encode text = line ∧ (∃ c ∈ text.toList, isBlank c = false) ∧
        start.size ≠ header.size ∧ final = start.push text := by
  unfold takeLine
  constructor
  · intro h
    split at h
    · cases h
    · rename_i text hdecode
      repeat' split at h
      all_goals cases h
      rename_i hroom hblank
      exact ⟨text, decode?_eq_some_iff.1 hdecode,
        allBlank_eq_false_iff.1 (Bool.eq_false_iff.2 hblank), hroom, rfl⟩
  · rintro ⟨text, rfl, hblank, hroom, rfl⟩
    simp [decode?_encode, hroom, allBlank_eq_false_iff.2 hblank]

/-- Lines are taken exactly if they are the bytes of texts that are not blank, and there
are cells left for all of them. -/
theorem foldlM_takeLine_eq_ok_iff (hstart : start.size ≤ header.size) :
    rest.foldlM (takeLine header) start = .ok final ↔
      ∃ texts : List String, rest = texts.map encode ∧
        (∀ text ∈ texts, ∃ c ∈ text.toList, isBlank c = false) ∧
        start.size + texts.length ≤ header.size ∧ final = start ++ texts.toArray := by
  induction rest generalizing start with
  | nil =>
      constructor
      · intro h
        cases h
        exact ⟨[], by simpa using hstart⟩
      · rintro ⟨texts, htexts, -, -, rfl⟩
        obtain rfl := List.map_eq_nil_iff.1 htexts.symm
        exact congrArg Except.ok Array.append_empty.symm
  | cons line rest ih =>
      rw [List.foldlM_cons]
      constructor
      · intro h
        rcases htaken : takeLine header start line with problem | longer
        · rw [htaken] at h
          cases h
        · rw [htaken] at h
          obtain ⟨text, rfl, hblank, hroom, rfl⟩ := takeLine_eq_ok_iff.1 htaken
          have hlonger : (start.push text).size ≤ header.size := by
            rw [Array.size_push]
            omega
          obtain ⟨texts, rfl, hblanks, hfits, rfl⟩ := (ih hlonger).1 h
          refine ⟨text :: texts, rfl, ?_, ?_, by simp⟩
          · rintro other (_ | ⟨_, hother⟩)
            · exact hblank
            · exact hblanks other hother
          · rw [Array.size_push] at hfits
            rw [List.length_cons]
            omega
      · rintro ⟨texts, htexts, hblanks, hfits, rfl⟩
        obtain ⟨text, others, rfl, rfl, rfl⟩ := List.map_eq_cons_iff.1 htexts.symm
        rw [List.length_cons] at hfits
        have htaken : takeLine header start (encode text) = .ok (start.push text) :=
          takeLine_eq_ok_iff.2
            ⟨text, rfl, hblanks text List.mem_cons_self, by omega, rfl⟩
        rw [htaken]
        apply (ih (by rw [Array.size_push]; omega)).2
        refine ⟨others, rfl, fun other hother => hblanks other (List.mem_cons_of_mem _ hother),
          ?_, by simp⟩
        rw [Array.size_push]
        omega

theorem takeLines_eq (header : Header) (rest : List (List UInt8)) :
    takeLines header rest = (do
      let texts ← rest.foldlM (takeLine header) #[]
      if texts.size < header.size then
        .error (.text (.tooFewCells header.size texts.size))
      else .ok texts.toList) := rfl

/-- The lines after the header are taken exactly if they are texts that are not blank, and
not more than there are cells. -/
theorem foldlM_takeLine_empty_eq_ok_iff :
    rest.foldlM (takeLine header) #[] = .ok final ↔
      ∃ texts : List String, rest = texts.map encode ∧
        (∀ text ∈ texts, ∃ c ∈ text.toList, isBlank c = false) ∧
        texts.length ≤ header.size ∧ final = texts.toArray := by
  have hempty : (#[] : Array String).size ≤ header.size := Nat.zero_le _
  simpa using foldlM_takeLine_eq_ok_iff hempty

theorem takeLines_eq_ok_iff {texts : List String} :
    takeLines header rest = .ok texts ↔
      rest = texts.map encode ∧ (∀ text ∈ texts, ∃ c ∈ text.toList, isBlank c = false) ∧
        texts.length = header.size := by
  rw [takeLines_eq, bind_eq_ok_iff]
  constructor
  · rintro ⟨final, hfolded, h⟩
    obtain ⟨taken, hrest, hblanks, hfits, rfl⟩ := foldlM_takeLine_empty_eq_ok_iff.1 hfolded
    rw [List.size_toArray] at h
    split at h
    · cases h
    · rename_i henough
      cases h
      exact ⟨hrest, hblanks, Nat.le_antisymm hfits (Nat.le_of_not_lt henough)⟩
  · rintro ⟨hrest, hblanks, hlength⟩
    refine ⟨texts.toArray,
      foldlM_takeLine_empty_eq_ok_iff.2 ⟨texts, hrest, hblanks, Nat.le_of_eq hlength, rfl⟩, ?_⟩
    rw [List.size_toArray, if_neg (Nat.not_lt.2 (Nat.le_of_eq hlength.symm))]

/-- Lines are refused for the encoding or the text of one of them, or for their number. -/
theorem takeLines_eq_error {problem : Problem} (h : takeLines header rest = .error problem) :
    problem = .io .encoding ∨
      ∃ fault, problem = .text fault ∧ ∀ build, fault ≠ .build build := by
  rw [takeLines_eq] at h
  rcases bind_eq_error_iff.1 h with hstep | ⟨texts, -, hnumber⟩
  · obtain ⟨_, line, _, start, -, -, htaken⟩ := foldlM_eq_error_iff.1 hstep
    unfold takeLine at htaken
    repeat' split at htaken
    all_goals cases htaken
    · exact Or.inl rfl
    · exact Or.inr ⟨_, rfl, by simp⟩
    · exact Or.inr ⟨_, rfl, by simp⟩
  · split at hnumber
    · cases hnumber
      exact Or.inr ⟨_, rfl, by simp⟩
    · cases hnumber

theorem readLines_of_decode?_eq_none (h : decode? line = none) (rest : List (List UInt8)) :
    readLines (line :: rest) = .error (.io .encoding) := by
  simp only [readLines, h]
  rfl

theorem readLines_encode_cons (line : String) (rest : List (List UInt8)) :
    readLines (encode line :: rest) = (do
      let header ← (Header.ofText line).mapError Problem.text
      let texts ← takeLines header rest
      (Sheet.ofTexts header.rows header.cols texts).mapError fun fault =>
        .text (.build fault)) := by
  simp only [readLines, decode?_encode]

theorem exists_sheet_of_takeLines {line : String} {texts : List String}
    (hheader : Header.ofText line = .ok header) (htexts : takeLines header rest = .ok texts) :
    ∃ sheet, Sheet.ofTexts header.rows header.cols texts = .ok sheet := by
  obtain ⟨-, hsize⟩ := Header.ofText_eq_ok_iff.1 hheader
  obtain ⟨-, hblanks, hlength⟩ := takeLines_eq_ok_iff.1 htexts
  exact Sheet.exists_ofTexts_eq_ok hsize (hlength.trans (Nat.mul_comm _ _))
    fun text htext => allBlank_eq_false_iff.2 (hblanks text htext)

/-- Lines are refused for the encoding or the text of one of them, or for their number, but
not for the sheet that they make up. -/
theorem readLines_eq_error {found : List (List UInt8)} {problem : Problem}
    (h : readLines found = .error problem) :
    problem = .io .encoding ∨
      ∃ fault, problem = .text fault ∧ ∀ build, fault ≠ .build build := by
  rcases found with _ | ⟨first, rest⟩
  · cases h
    exact Or.inr ⟨_, rfl, by simp⟩
  · rcases hdecode : decode? first with _ | line
    · rw [readLines_of_decode?_eq_none hdecode] at h
      cases h
      exact Or.inl rfl
    · rw [← decode?_eq_some_iff.1 hdecode, readLines_encode_cons] at h
      rcases bind_eq_error_iff.1 h with hfirst | ⟨header, hheader, h⟩
      · obtain ⟨fault, hfault, rfl⟩ := mapError_eq_error_iff.1 hfirst
        refine Or.inr ⟨fault, rfl, ?_⟩
        rintro build rfl
        exact Header.ofText_ne_build line build hfault
      · rw [mapError_eq_ok_iff] at hheader
        rcases bind_eq_error_iff.1 h with hrest | ⟨texts, htexts, hsheet⟩
        · exact takeLines_eq_error hrest
        · obtain ⟨sheet, hbuilt⟩ := exists_sheet_of_takeLines hheader htexts
          rw [hbuilt] at hsheet
          cases hsheet

/-- Lines make up a sheet exactly if the first one is a header, the others are the texts
that it announces, and those make up the sheet. -/
theorem readLines_eq_ok_iff {found : List (List UInt8)} {sheet : Sheet} :
    readLines found = .ok sheet ↔
      ∃ line header texts, found = encode line :: texts.map encode ∧
        Header.ofText line = .ok header ∧ takeLines header (texts.map encode) = .ok texts ∧
        Sheet.ofTexts header.rows header.cols texts = .ok sheet := by
  constructor
  · intro h
    rcases found with _ | ⟨first, rest⟩
    · cases h
    · rcases hdecode : decode? first with _ | line
      · rw [readLines_of_decode?_eq_none hdecode] at h
        cases h
      · obtain rfl := decode?_eq_some_iff.1 hdecode
        rw [readLines_encode_cons, bind_eq_ok_iff] at h
        obtain ⟨header, hheader, h⟩ := h
        obtain ⟨texts, htexts, hsheet⟩ := bind_eq_ok_iff.1 h
        obtain ⟨rfl, -, -⟩ := takeLines_eq_ok_iff.1 htexts
        exact ⟨line, header, texts, rfl, mapError_eq_ok_iff.1 hheader, htexts,
          mapError_eq_ok_iff.1 hsheet⟩
  · rintro ⟨line, header, texts, rfl, hheader, htexts, hsheet⟩
    rw [readLines_encode_cons, hheader]
    change takeLines header (texts.map encode) >>= _ = _
    rw [htexts]
    exact mapError_eq_ok_iff.2 hsheet

/-- Bytes are read as a sheet exactly if they describe one with its formulas. -/
theorem read_eq_ok_iff {bytes : List UInt8} {sheet : Sheet} :
    read bytes = .ok sheet ↔
      ∃ texts, Describes bytes sheet.cols sheet.rows texts ∧
        sheet.formulas.toList = texts.map Formula.mk := by
  rw [read, readLines_eq_ok_iff]
  constructor
  · rintro ⟨line, header, texts, hlines, hheader, htexts, hsheet⟩
    obtain ⟨hannounces, hrows, hcols, hletters, hsize⟩ := Header.ofText_eq_ok_iff.1 hheader
    obtain ⟨-, hblanks, hlength⟩ := takeLines_eq_ok_iff.1 htexts
    obtain ⟨hrows', hcols', hformulas⟩ := Sheet.of_ofTexts_eq_ok hsheet
    refine ⟨texts, ?_, hformulas⟩
    rw [hrows', hcols']
    rw [Nat.mul_comm] at hsize
    exact ⟨⟨line, lines_eq_iff.1 hlines, hannounces⟩, hcols, hrows, hletters,
      hsize, hlength, hblanks⟩
  · rintro ⟨texts, hdescribes, hformulas⟩
    obtain ⟨line, hlines, hannounces⟩ := hdescribes.lines
    have hheader : Header.ofText line = .ok ⟨sheet.cols, sheet.rows⟩ :=
      Header.ofText_eq_ok_iff.2 ⟨hannounces, sheet.validSize⟩
    have htexts : takeLines ⟨sheet.cols, sheet.rows⟩ (texts.map encode) = .ok texts :=
      takeLines_eq_ok_iff.2 ⟨rfl, hdescribes.not_blank, hdescribes.length_texts⟩
    obtain ⟨built, hbuilt⟩ := exists_sheet_of_takeLines hheader htexts
    obtain ⟨hrows, hcols, hsame⟩ := Sheet.of_ofTexts_eq_ok hbuilt
    obtain rfl : built = sheet :=
      Sheet.eq_of_formulas hrows hcols (hsame.trans hformulas.symm)
    exact ⟨line, _, texts, lines_eq_iff.2 hlines, hheader, htexts, hbuilt⟩

theorem exists_read_eq_ok {bytes : List UInt8} {cols rows : Nat} {texts : List String}
    (h : Describes bytes cols rows texts) :
    ∃ sheet, read bytes = .ok sheet ∧ sheet.cols = cols ∧ sheet.rows = rows ∧
      sheet.formulas.toList = texts.map Formula.mk := by
  have hsize : Sheet.ValidSize rows cols :=
    ⟨h.rows_pos, h.cols_pos, h.rows_le, by
      rw [Nat.mul_comm]
      exact h.size_le⟩
  obtain ⟨sheet, hsheet⟩ := Sheet.exists_ofTexts_eq_ok hsize
    (h.length_texts.trans (Nat.mul_comm _ _))
    fun text htext => allBlank_eq_false_iff.2 (h.not_blank text htext)
  obtain ⟨rfl, rfl, hformulas⟩ := Sheet.of_ofTexts_eq_ok hsheet
  exact ⟨sheet, read_eq_ok_iff.2 ⟨texts, h, hformulas⟩, rfl, rfl, hformulas⟩

/-- Exactly the bytes that describe a sheet are read.  The sheet has the size that they
announce and their texts as its formulas, row by row, and nothing of it is calculated yet.
A sheet is never refused for its size or its formulas after its lines have been taken. -/
theorem read_described (bytes : List UInt8) :
    ((∃ sheet, read bytes = .ok sheet) ↔ ∃ cols rows texts, Describes bytes cols rows texts) ∧
    (∀ sheet cols rows texts, read bytes = .ok sheet → Describes bytes cols rows texts →
      sheet.cols = cols ∧ sheet.rows = rows ∧
      ∀ row col, row < rows → col < cols →
        ∃ inside : sheet.Holds ⟨row, col⟩, ∃ text,
          texts[row * cols + col]? = some text ∧
          sheet.formula? ⟨row, col⟩ = some ⟨text⟩ ∧
          ∀ source, Document.load source (.ok bytes) = .ok (.ofSheet sheet source) ∧
            (Document.ofSheet sheet source).progress.mark (sheet.index _ inside) = .untouched ∧
            (Document.ofSheet sheet source).progress.lastReference
              (sheet.index _ inside) = none) ∧
    ∀ fault, read bytes ≠ .error (.text (.build fault)) := by
  refine ⟨⟨?_, ?_⟩, ?_, ?_⟩
  · rintro ⟨sheet, hread⟩
    obtain ⟨texts, hdescribes, -⟩ := read_eq_ok_iff.1 hread
    exact ⟨_, _, texts, hdescribes⟩
  · rintro ⟨cols, rows, texts, hdescribes⟩
    obtain ⟨sheet, hread, -⟩ := exists_read_eq_ok hdescribes
    exact ⟨sheet, hread⟩
  · intro sheet cols rows texts hread hdescribes
    obtain ⟨other, hother, rfl, rfl, hformulas⟩ := exists_read_eq_ok hdescribes
    obtain rfl : sheet = other := Except.ok.inj (hread.symm.trans hother)
    refine ⟨rfl, rfl, fun row col hrow hcol => ⟨⟨hrow, hcol⟩, ?_⟩⟩
    have hplace : row * sheet.cols + col < texts.length := by
      rw [hdescribes.length_texts, Nat.mul_comm sheet.cols]
      exact Sheet.index_lt (show sheet.Holds ⟨row, col⟩ from ⟨hrow, hcol⟩)
    have hformula : sheet.formula? ⟨row, col⟩ = some ⟨texts[row * sheet.cols + col]⟩ := by
      rw [Sheet.formula?_eq_getElem? ⟨hrow, hcol⟩, hformulas, List.getElem?_map,
        List.getElem?_eq_getElem hplace]
      rfl
    refine ⟨_, List.getElem?_eq_getElem hplace, hformula, fun source => ⟨?_, ?_, ?_⟩⟩
    · rw [Document.load, hread]
      rfl
    · exact Progress.mark_fresh _
    · exact Progress.lastReference_fresh _
  · intro build hrefused
    rcases readLines_eq_error hrefused with hencoding | ⟨fault, hsame, hother⟩
    · cases hencoding
    · exact hother build (Problem.text.inj hsame).symm

namespace ReadingWitness

/-- Both kinds of line ends, a plus sign, a zero in front and a last line that is not
ended. -/
def bytes : List UInt8 := encode "+2 \t01\r\n 3 4 +\nA1\r"

def texts : List String := [" 3 4 +", "A1\r"]

/-- The blanks around a formula and a carriage return that ends no line are kept. -/
theorem read_described_mixed :
    Describes bytes 2 1 texts ∧ ∃ sheet, read bytes = .ok sheet ∧ sheet.cols = 2 ∧
      sheet.rows = 1 ∧ sheet.formula? ⟨0, 1⟩ = some ⟨"A1\r"⟩ := by
  have hwords : WordsOf isBlank "+2 \t01".toList ["+2".toList, "01".toList] := by
    have hfound : words isBlank "+2 \t01" = ["+2", "01"] := by decide +kernel
    exact words_eq_iff.1 hfound
  have hcols : Spells "+2".toList 2 := count?_eq_some_iff.1 (by decide +kernel)
  have hrows : Spells "01".toList 1 := count?_eq_some_iff.1 (by decide +kernel)
  have hblanks : ∀ text ∈ texts, allBlank text = false := by decide +kernel
  have hdescribes : Describes bytes 2 1 texts := {
    lines := ⟨"+2 \t01", lines_eq_iff.1 (by decide +kernel), "+2".toList, "01".toList,
      hwords, hcols, hrows⟩
    cols_pos := by decide
    rows_pos := by decide
    rows_le := by decide
    size_le := by decide
    length_texts := by decide
    not_blank := fun text htext => allBlank_eq_false_iff.1 (hblanks text htext) }
  obtain ⟨sheet, hread⟩ := (read_described bytes).1.2 ⟨2, 1, texts, hdescribes⟩
  obtain ⟨hcols, hrows, hcells⟩ := (read_described bytes).2.1 sheet 2 1 texts hread hdescribes
  obtain ⟨-, text, htext, hformula, -⟩ := hcells 0 1 (by decide) (by decide)
  obtain rfl : "A1\r" = text := Option.some.inj htext
  exact ⟨hdescribes, sheet, hread, hcols, hrows, hformula⟩

end ReadingWitness

end SheetText

end PostfixSheet
