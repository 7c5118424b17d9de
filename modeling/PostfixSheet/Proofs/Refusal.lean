/-
Why bytes are refused.

`Refused` says which line is the first one at fault, and for what: it stands after lines that
begin a sheet's text, and breaks one rule after it has kept the earlier ones.  Lines that only
come to an end too soon are `Unfinished`.  Reading refuses bytes in these cases only, and what
follows the line at fault does not matter.
-/
import Mathlib.Data.List.DropRight
import PostfixSheet.Proofs.Reading

namespace PostfixSheet

open Text

namespace Text

variable {p : Char → Bool} {cs : List Char} {line text : String}

/-- A text is what is left of a line without the blank characters at its two ends. -/
def Trims (line text : String) : Prop :=
  ∃ before after, line.toList = before ++ text.toList ++ after ∧
    (∀ c ∈ before, isBlank c = true) ∧ (∀ c ∈ after, isBlank c = true) ∧
    (∀ c, text.toList.head? = some c → isBlank c = false) ∧
    ∀ c, text.toList.getLast? = some c → isBlank c = false

theorem dropWhile_of_head (h : ∀ c, cs.head? = some c → p c = false) : cs.dropWhile p = cs := by
  cases cs with
  | nil => rfl
  | cons c cs => rw [List.dropWhile_cons_of_neg (by simp [h c rfl])]

theorem trim_eq (line : String) :
    trim line = String.ofList ((line.toList.dropWhile isBlank).rdropWhile isBlank) := rfl

theorem trims_trim (line : String) : Trims line (trim line) := by
  have hfirst : ∀ c, (line.toList.dropWhile isBlank).head? = some c → isBlank c = false := by
    intro c hc
    have hnot := List.head?_dropWhile_not isBlank line.toList
    rwa [hc] at hnot
  rw [trim_eq, Trims, String.toList_ofList]
  refine ⟨line.toList.takeWhile isBlank,
    (line.toList.dropWhile isBlank).rtakeWhile isBlank, ?_, ?_, ?_, ?_, ?_⟩
  · rw [List.append_assoc, List.rdropWhile_append_rtakeWhile, List.takeWhile_append_dropWhile]
  · exact fun c hc => List.mem_takeWhile_imp hc
  · exact fun c hc => List.mem_rtakeWhile_imp hc
  · intro c hc
    obtain ⟨more, hmore⟩ := List.rdropWhile_prefix isBlank (line.toList.dropWhile isBlank)
    refine hfirst c ?_
    rw [← hmore, List.head?_append, hc]
    rfl
  · intro c hc
    have hlast := List.rdropWhile_last_not isBlank (line.toList.dropWhile isBlank)
      (List.ne_nil_of_mem (List.mem_of_getLast? hc))
    rw [List.getLast_of_getLast?_eq_some hc] at hlast
    exact Bool.eq_false_iff.2 hlast

theorem trim_eq_iff : trim line = text ↔ Trims line text := by
  constructor
  · rintro rfl
    exact trims_trim line
  · rintro ⟨before, after, hline, hbefore, hafter, hfirst, hlast⟩
    have hend : (text.toList ++ after).rdropWhile isBlank = text.toList := by
      rw [List.rdropWhile, List.reverse_append,
        List.dropWhile_append_of_pos (by simpa using hafter),
        dropWhile_of_head (by simpa using hlast), List.reverse_reverse]
    have hstart : line.toList.dropWhile isBlank = (text.toList ++ after).dropWhile isBlank := by
      rw [hline, List.append_assoc, List.dropWhile_append_of_pos hbefore]
    rw [trim_eq, hstart]
    by_cases hempty : text.toList = []
    · have hnone : (text.toList ++ after).dropWhile isBlank = [] := by
        rw [hempty, List.nil_append, List.dropWhile_eq_nil_iff]
        exact hafter
      rw [hnone, List.rdropWhile_nil, ← hempty, String.ofList_toList]
    · obtain ⟨c, hc⟩ := Option.ne_none_iff_exists'.1 (mt List.head?_eq_none_iff.1 hempty)
      have hhead : ∀ c, (text.toList ++ after).head? = some c → isBlank c = false := by
        intro c' hc'
        rw [List.head?_append, hc] at hc'
        exact hfirst c' (hc.trans hc')
      rw [dropWhile_of_head hhead, hend, String.ofList_toList]

theorem decode?_eq_none_iff {line : List UInt8} :
    decode? line = none ↔ ∀ text, encode text ≠ line := by
  rw [Option.eq_none_iff_forall_ne_some]
  exact forall_congr' fun text => not_congr decode?_eq_some_iff

/-- Bytes up to a line feed have lines of their own, one for every line feed in them. -/
theorem lines_append_lineFeed (start rest : List UInt8) :
    lines (start ++ lineFeed :: rest) = lines (start ++ [lineFeed]) ++ lines rest ∧
      (lines (start ++ [lineFeed])).length = start.count lineFeed + 1 := by
  induction hlength : start.length using Nat.strongRecOn generalizing start with
  | ind length ih =>
      by_cases hmem : lineFeed ∈ start
      · obtain ⟨line, more, rfl, hnot⟩ := List.eq_append_cons_of_mem hmem
        obtain ⟨hlines, hcount⟩ := ih more.length (by simp [← hlength]; omega) more rfl
        rw [List.append_assoc, List.cons_append, List.append_assoc, List.cons_append,
          lines_append_cons hnot, lines_append_cons hnot, hlines]
        refine ⟨rfl, ?_⟩
        rw [List.length_cons, hcount, List.count_append, List.count_cons_self,
          List.count_eq_zero.2 hnot, Nat.zero_add]
      · rw [lines_append_cons hmem, lines_append_cons hmem, lines_nil, List.count_eq_zero.2 hmem]
        exact ⟨rfl, rfl⟩

end Text

/-- What is wrong with a header: the first of these faults that applies to it. -/
inductive HeaderRefused (line : String) : TextFault → Prop
  | fields {fields : List (List Char)} : WordsOf isBlank line.toList fields →
      fields.length ≠ 2 → HeaderRefused line (.headerFields fields.length)
  | colsField {colsField rowsField : List Char} :
      WordsOf isBlank line.toList [colsField, rowsField] →
      (∀ cols, ¬Spells colsField cols) →
      HeaderRefused line (.dimension (String.ofList colsField))
  | rowsField {colsField rowsField : List Char} {cols : Nat} :
      WordsOf isBlank line.toList [colsField, rowsField] → Spells colsField cols →
      (∀ rows, ¬Spells rowsField rows) →
      HeaderRefused line (.dimension (String.ofList rowsField))
  | zeroColumns {rows : Nat} : Announces line 0 rows → HeaderRefused line .zeroColumns
  | zeroRows {cols : Nat} : Announces line cols 0 → 1 ≤ cols → HeaderRefused line .zeroRows
  | tooManyRows {cols rows : Nat} : Announces line cols rows → 1 ≤ cols → 26 < rows →
      HeaderRefused line (.tooManyRows rows)
  | tooLarge {cols rows : Nat} {text : String} : Announces line cols rows → 1 ≤ cols →
      1 ≤ rows → rows ≤ 26 → maxWord < cols * rows → Trims line text →
      HeaderRefused line (.dimension text)

/-- Lines begin a sheet's text: a header with the size of a sheet, and some texts that are
not blank, at most as many as the sheet has cells. -/
structure Begins (front : List (List UInt8)) (cols rows : Nat) (texts : List String) :
    Prop where
  lines : ∃ header, front = encode header :: texts.map encode ∧ Announces header cols rows
  cols_pos : 1 ≤ cols
  rows_pos : 1 ≤ rows
  rows_le : rows ≤ 26
  size_le : cols * rows ≤ maxWord
  not_blank : ∀ text ∈ texts, ∃ c ∈ text.toList, isBlank c = false
  length_texts : texts.length ≤ cols * rows

/-- The last one of these lines is at fault, and no earlier one. -/
inductive Refused : List (List UInt8) → Problem → Prop
  | headerEncoding {line : List UInt8} : (∀ text, encode text ≠ line) →
      Refused [line] (.io .encoding)
  | header {line : String} {fault : TextFault} : HeaderRefused line fault →
      Refused [encode line] (.text fault)
  | encoding {front : List (List UInt8)} {cols rows : Nat} {texts : List String}
      {line : List UInt8} : Begins front cols rows texts → (∀ text, encode text ≠ line) →
      Refused (front ++ [line]) (.io .encoding)
  | tooMany {front : List (List UInt8)} {cols rows : Nat} {texts : List String}
      {text : String} : Begins front cols rows texts → texts.length = cols * rows →
      Refused (front ++ [encode text]) (.text (.tooManyCells (cols * rows)))
  | blank {front : List (List UInt8)} {cols rows : Nat} {texts : List String}
      {text : String} : Begins front cols rows texts → texts.length < cols * rows →
      (∀ c ∈ text.toList, isBlank c = true) →
      Refused (front ++ [encode text])
        (.text (.blank (texts.length + 2) ⟨texts.length / cols, texts.length % cols⟩))

/-- Lines come to an end before they make up a sheet, and none of them is at fault. -/
inductive Unfinished : List (List UInt8) → Problem → Prop
  | missingHeader : Unfinished [] (.text .missingHeader)
  | tooFew {found : List (List UInt8)} {cols rows : Nat} {texts : List String} :
      Begins found cols rows texts → texts.length < cols * rows →
      Unfinished found (.text (.tooFewCells (cols * rows) texts.length))

namespace Header

variable {line field : String} {cols rows : Nat} {fault : TextFault}

theorem dimension_eq_error_iff :
    dimension field = .error fault ↔
      (∀ number, ¬Spells field.toList number) ∧ fault = .dimension field := by
  have hnone : count? field = none ↔ ∀ number, ¬Spells field.toList number := by
    rw [Option.eq_none_iff_forall_ne_some]
    exact forall_congr' fun number => not_congr count?_eq_some_iff
  rw [← hnone]
  unfold dimension
  cases count? field <;> simp [eq_comm]

theorem ofNumbers_eq_error_iff :
    ofNumbers line cols rows = .error fault ↔
      cols = 0 ∧ fault = .zeroColumns ∨
      1 ≤ cols ∧ rows = 0 ∧ fault = .zeroRows ∨
      1 ≤ cols ∧ 26 < rows ∧ fault = .tooManyRows rows ∨
      1 ≤ cols ∧ 1 ≤ rows ∧ rows ≤ 26 ∧ maxWord < cols * rows ∧
        fault = .dimension (trim line) := by
  unfold ofNumbers Address.maxRows
  rcases Nat.eq_zero_or_pos cols with rfl | hcols
  · simp [eq_comm]
  · rcases Nat.eq_zero_or_pos rows with rfl | hrows
    · simp [Nat.ne_of_gt hcols, Nat.succ_le_of_lt hcols, eq_comm]
    · grind

theorem ofText_eq_error_iff : ofText line = .error fault ↔ HeaderRefused line fault := by
  constructor
  · intro h
    by_cases htwo : (words isBlank line).length = 2
    · obtain ⟨colsField, rowsField, hwords⟩ := List.length_eq_two.1 htwo
      have hfields := words_eq_iff.1 hwords
      rw [ofText_of_words hwords, bind_eq_error_iff] at h
      rcases h with h | ⟨cols, hcols, h⟩
      · obtain ⟨hnot, rfl⟩ := dimension_eq_error_iff.1 h
        simpa using HeaderRefused.colsField hfields hnot
      · rw [dimension_eq_ok_iff] at hcols
        rcases bind_eq_error_iff.1 h with h | ⟨rows, hrows, h⟩
        · obtain ⟨hnot, rfl⟩ := dimension_eq_error_iff.1 h
          simpa using HeaderRefused.rowsField hfields hcols hnot
        · rw [dimension_eq_ok_iff] at hrows
          have hannounces : Announces line cols rows := ⟨_, _, hfields, hcols, hrows⟩
          rcases ofNumbers_eq_error_iff.1 h with
            ⟨rfl, rfl⟩ | ⟨hcols, rfl, rfl⟩ | ⟨hcols, hrows, rfl⟩ | ⟨hcols, hpos, hrows, hsize, rfl⟩
          · exact .zeroColumns hannounces
          · exact .zeroRows hannounces hcols
          · exact .tooManyRows hannounces hcols hrows
          · exact .tooLarge hannounces hcols hpos hrows hsize (trims_trim line)
    · rw [ofText_of_length_ne htwo] at h
      cases h
      have hfields := words_eq_iff.1 (rfl : words isBlank line = words isBlank line)
      simpa using HeaderRefused.fields hfields (by simpa using htwo)
  · intro h
    cases h with
    | @fields fields hfields hlength =>
        have hcount : (words isBlank line).length = fields.length := by
          rw [hfields.words_eq, List.length_map]
        rw [ofText_of_length_ne (hcount ▸ hlength), hcount]
    | @colsField colsField rowsField hfields hnot =>
        have hcols : dimension (String.ofList colsField) =
            .error (.dimension (String.ofList colsField)) :=
          dimension_eq_error_iff.2 ⟨by simpa using hnot, rfl⟩
        rw [ofText_of_words hfields.words_eq, hcols]
        rfl
    | @rowsField colsField rowsField cols hfields hcols hnot =>
        have hcols' : dimension (String.ofList colsField) = .ok cols :=
          dimension_eq_ok_iff.2 (by simpa using hcols)
        have hrows : dimension (String.ofList rowsField) =
            .error (.dimension (String.ofList rowsField)) :=
          dimension_eq_error_iff.2 ⟨by simpa using hnot, rfl⟩
        rw [ofText_of_words hfields.words_eq, hcols', hrows]
        rfl
    | zeroColumns hannounces =>
        rw [ofText_of_announces hannounces]
        exact ofNumbers_eq_error_iff.2 (Or.inl ⟨rfl, rfl⟩)
    | zeroRows hannounces hcols =>
        rw [ofText_of_announces hannounces]
        exact ofNumbers_eq_error_iff.2 (Or.inr (Or.inl ⟨hcols, rfl, rfl⟩))
    | tooManyRows hannounces hcols hrows =>
        rw [ofText_of_announces hannounces]
        exact ofNumbers_eq_error_iff.2 (Or.inr (Or.inr (Or.inl ⟨hcols, hrows, rfl⟩)))
    | tooLarge hannounces hcols hpos hrows hsize htrims =>
        rw [ofText_of_announces hannounces, ← trim_eq_iff.2 htrims]
        exact ofNumbers_eq_error_iff.2
          (Or.inr (Or.inr (Or.inr ⟨hcols, hpos, hrows, hsize, rfl⟩)))

end Header

namespace SheetText

variable {header : Header} {line : List UInt8} {rest front found : List (List UInt8)}
  {start : Array String} {problem : Problem} {cols rows : Nat} {texts : List String}

theorem takeLine_eq_error_iff :
    takeLine header start line = .error problem ↔
      (∀ text, encode text ≠ line) ∧ problem = .io .encoding ∨
      ∃ text, encode text = line ∧
        (start.size = header.size ∧ problem = .text (.tooManyCells header.size) ∨
          start.size ≠ header.size ∧ (∀ c ∈ text.toList, isBlank c = true) ∧
            problem =
              .text (.blank (start.size + 2) (Sheet.addressIn header.cols start.size))) := by
  have hblank_iff : ∀ text, allBlank text = true ↔ ∀ c ∈ text.toList, isBlank c = true := by
    simp [allBlank]
  unfold takeLine
  constructor
  · intro h
    cases hdecode : decode? line with
    | none =>
        rw [hdecode] at h
        cases h
        exact Or.inl ⟨decode?_eq_none_iff.1 hdecode, rfl⟩
    | some text =>
        rw [hdecode] at h
        refine Or.inr ⟨text, decode?_eq_some_iff.1 hdecode, ?_⟩
        dsimp only at h
        split at h
        · rename_i hfull
          cases h
          exact Or.inl ⟨hfull, rfl⟩
        · rename_i hroom
          split at h
          · rename_i hblank
            cases h
            exact Or.inr ⟨hroom, (hblank_iff text).1 hblank, rfl⟩
          · cases h
  · rintro (⟨hnot, rfl⟩ | ⟨text, rfl, ⟨hfull, rfl⟩ | ⟨hroom, hblank, rfl⟩⟩)
    · rw [decode?_eq_none_iff.2 hnot]
    · simp [decode?_encode, hfull]
    · simp [decode?_encode, hroom, (hblank_iff text).2 hblank]

/-- Lines after the header are refused exactly for the first one that cannot be taken, or for
their end. -/
theorem takeLines_eq_error_iff :
    takeLines header rest = .error problem ↔
      (∃ (texts : List String) (line : List UInt8) (after : List (List UInt8)),
        rest = texts.map encode ++ line :: after ∧
        (∀ text ∈ texts, ∃ c ∈ text.toList, isBlank c = false) ∧
        texts.length ≤ header.size ∧ takeLine header texts.toArray line = .error problem) ∨
      ∃ texts : List String, rest = texts.map encode ∧
        (∀ text ∈ texts, ∃ c ∈ text.toList, isBlank c = false) ∧
        texts.length < header.size ∧
        problem = .text (.tooFewCells header.size texts.length) := by
  rw [takeLines_eq, bind_eq_error_iff, foldlM_eq_error_iff]
  refine or_congr ?_ ?_
  · constructor
    · rintro ⟨before, line, after, middle, rfl, hbefore, hline⟩
      obtain ⟨texts, rfl, hblanks, hfits, rfl⟩ := foldlM_takeLine_empty_eq_ok_iff.1 hbefore
      exact ⟨texts, line, after, rfl, hblanks, hfits, hline⟩
    · rintro ⟨texts, line, after, rfl, hblanks, hfits, hline⟩
      exact ⟨_, line, after, _, rfl,
        foldlM_takeLine_empty_eq_ok_iff.2 ⟨texts, rfl, hblanks, hfits, rfl⟩, hline⟩
  · constructor
    · rintro ⟨final, hfinal, h⟩
      obtain ⟨texts, rfl, hblanks, hfits, rfl⟩ := foldlM_takeLine_empty_eq_ok_iff.1 hfinal
      split at h
      · rename_i hfew
        cases h
        exact ⟨texts, rfl, hblanks, hfew, rfl⟩
      · cases h
    · rintro ⟨texts, rfl, hblanks, hfew, rfl⟩
      refine ⟨_, foldlM_takeLine_empty_eq_ok_iff.2
        ⟨texts, rfl, hblanks, Nat.le_of_lt hfew, rfl⟩, ?_⟩
      rw [List.size_toArray, if_pos hfew]

theorem begins_iff :
    Begins front cols rows texts ↔
      ∃ line, front = encode line :: texts.map encode ∧ Header.ofText line = .ok ⟨cols, rows⟩ ∧
        (∀ text ∈ texts, ∃ c ∈ text.toList, isBlank c = false) ∧
        texts.length ≤ cols * rows := by
  constructor
  · intro h
    obtain ⟨line, hfront, hannounces⟩ := h.lines
    have hsize : Sheet.ValidSize rows cols :=
      ⟨h.rows_pos, h.cols_pos, h.rows_le, Nat.mul_comm cols rows ▸ h.size_le⟩
    exact ⟨line, hfront, Header.ofText_eq_ok_iff.2 ⟨hannounces, hsize⟩, h.not_blank,
      h.length_texts⟩
  · rintro ⟨line, hfront, hheader, hblanks, hfits⟩
    obtain ⟨hannounces, hrows, hcols, hletters, hsize⟩ := Header.ofText_eq_ok_iff.1 hheader
    exact ⟨⟨line, hfront, hannounces⟩, hcols, hrows, hletters,
      Nat.mul_comm rows cols ▸ hsize, hblanks, hfits⟩

theorem readLines_of_takeLines_eq_error {line : String}
    (hheader : Header.ofText line = .ok header) (h : takeLines header rest = .error problem) :
    readLines (encode line :: rest) = .error problem := by
  rw [readLines_encode_cons, hheader]
  change takeLines header rest >>= _ = _
  rw [h]
  rfl

theorem refused_of_takeLine (h : Begins front cols rows texts)
    (hline : takeLine ⟨cols, rows⟩ texts.toArray line = .error problem) :
    Refused (front ++ [line]) problem := by
  rcases takeLine_eq_error_iff.1 hline with
    ⟨hnot, rfl⟩ | ⟨text, rfl, ⟨hfull, rfl⟩ | ⟨hroom, hblank, rfl⟩⟩
  · exact .encoding h hnot
  · exact .tooMany h hfull
  · exact .blank h (Nat.lt_of_le_of_ne h.length_texts hroom) hblank

theorem readLines_of_takeLine (h : Begins front cols rows texts)
    (hline : takeLine ⟨cols, rows⟩ texts.toArray line = .error problem)
    (rest : List (List UInt8)) : readLines (front ++ [line] ++ rest) = .error problem := by
  obtain ⟨header, rfl, hheader, hblanks, hfits⟩ := begins_iff.1 h
  have hrest : takeLines ⟨cols, rows⟩ (texts.map encode ++ line :: rest) = .error problem :=
    takeLines_eq_error_iff.2 (Or.inl ⟨texts, line, rest, rfl, hblanks, hfits, hline⟩)
  rw [List.append_assoc, List.cons_append]
  exact readLines_of_takeLines_eq_error hheader hrest

/-- Reading refuses lines for the first one at fault, whatever follows it. -/
theorem readLines_of_refused (h : Refused front problem) (rest : List (List UInt8)) :
    readLines (front ++ rest) = .error problem := by
  cases h with
  | headerEncoding hnot => exact readLines_of_decode?_eq_none (decode?_eq_none_iff.2 hnot) rest
  | @header line fault hrefused =>
      have hheader := Header.ofText_eq_error_iff.2 hrefused
      change readLines (encode line :: rest) = _
      rw [readLines_encode_cons, hheader]
      rfl
  | encoding hbegins hnot =>
      exact readLines_of_takeLine hbegins (takeLine_eq_error_iff.2 (Or.inl ⟨hnot, rfl⟩)) rest
  | tooMany hbegins hfull =>
      exact readLines_of_takeLine hbegins
        (takeLine_eq_error_iff.2 (Or.inr ⟨_, rfl, Or.inl ⟨hfull, rfl⟩⟩)) rest
  | blank hbegins hfew hblank =>
      exact readLines_of_takeLine hbegins
        (takeLine_eq_error_iff.2 (Or.inr ⟨_, rfl, Or.inr ⟨Nat.ne_of_lt hfew, hblank, rfl⟩⟩)) rest

theorem readLines_of_unfinished (h : Unfinished found problem) :
    readLines found = .error problem := by
  cases h with
  | missingHeader => rfl
  | tooFew hbegins hfew =>
      obtain ⟨header, rfl, hheader, hblanks, hfits⟩ := begins_iff.1 hbegins
      exact readLines_of_takeLines_eq_error hheader
        (takeLines_eq_error_iff.2 (Or.inr ⟨_, rfl, hblanks, hfew, rfl⟩))

/-- Lines that are refused have a first one at fault, or end too soon. -/
theorem refused_or_unfinished (h : readLines found = .error problem) :
    (∃ front rest, found = front ++ rest ∧ Refused front problem) ∨ Unfinished found problem := by
  rcases found with _ | ⟨first, rest⟩
  · cases h
    exact Or.inr .missingHeader
  · rcases hdecode : decode? first with _ | line
    · rw [readLines_of_decode?_eq_none hdecode] at h
      cases h
      exact Or.inl ⟨[first], rest, rfl, .headerEncoding (decode?_eq_none_iff.1 hdecode)⟩
    · obtain rfl := decode?_eq_some_iff.1 hdecode
      rw [readLines_encode_cons] at h
      rcases bind_eq_error_iff.1 h with hfirst | ⟨⟨cols, rows⟩, hheader, h⟩
      · obtain ⟨fault, hfault, rfl⟩ := mapError_eq_error_iff.1 hfirst
        exact Or.inl ⟨[encode line], rest, rfl, .header (Header.ofText_eq_error_iff.1 hfault)⟩
      · rw [mapError_eq_ok_iff] at hheader
        rcases bind_eq_error_iff.1 h with hrest | ⟨texts, htexts, hsheet⟩
        · rcases takeLines_eq_error_iff.1 hrest with
            ⟨texts, bad, after, rfl, hblanks, hfits, hbad⟩ | ⟨texts, rfl, hblanks, hfew, rfl⟩
          · have hbegins : Begins (encode line :: texts.map encode) cols rows texts :=
              begins_iff.2 ⟨line, rfl, hheader, hblanks, hfits⟩
            exact Or.inl ⟨_, after, by simp, refused_of_takeLine hbegins hbad⟩
          · have hbegins : Begins (encode line :: texts.map encode) cols rows texts :=
              begins_iff.2 ⟨line, rfl, hheader, hblanks, Nat.le_of_lt hfew⟩
            exact Or.inr (.tooFew hbegins hfew)
        · obtain ⟨sheet, hbuilt⟩ := exists_sheet_of_takeLines hheader htexts
          rw [hbuilt] at hsheet
          cases hsheet

/-- Bytes are refused exactly if one of their lines is the first one at fault, or if they end
too soon. -/
theorem read_eq_error_iff {bytes : List UInt8} :
    read bytes = .error problem ↔
      (∃ front rest, LinesOf bytes (front ++ rest) ∧ Refused front problem) ∨
      ∃ found, LinesOf bytes found ∧ Unfinished found problem := by
  constructor
  · intro h
    rcases refused_or_unfinished h with ⟨front, rest, hlines, hrefused⟩ | hunfinished
    · exact Or.inl ⟨front, rest, lines_eq_iff.1 hlines, hrefused⟩
    · exact Or.inr ⟨_, linesOf_lines bytes, hunfinished⟩
  · rintro (⟨front, rest, hlines, hrefused⟩ | ⟨found, hlines, hunfinished⟩)
    · rw [read, lines_eq_iff.2 hlines, readLines_of_refused hrefused]
    · rw [read, lines_eq_iff.2 hlines, readLines_of_unfinished hunfinished]

/-- A blank line stands for a cell that the header announces, and its number is counted from
the header on. -/
theorem blank_inside {number : Nat} {cell : Address}
    (h : Refused front (.text (.blank number cell))) :
    ∃ line cols rows more, front = encode line :: more ∧ Announces line cols rows ∧
      cell.row < rows ∧ cell.col < cols ∧ number = cell.row * cols + cell.col + 2 := by
  cases h with
  | header hrefused => cases hrefused
  | @blank front cols rows texts text hbegins hfew _ =>
      obtain ⟨line, rfl, hannounces⟩ := hbegins.lines
      refine ⟨line, cols, rows, texts.map encode ++ [encode text], rfl, hannounces,
        Nat.div_lt_of_lt_mul hfew, Nat.mod_lt _ hbegins.cols_pos, ?_⟩
      rw [Nat.div_add_mod']

/-- Nothing matters that stands after the line at fault. -/
theorem read_append_of_refused {start tail : List UInt8}
    (hlines : LinesOf (start ++ lineFeed :: tail) (front ++ rest)) (h : Refused front problem)
    (hlength : front.length = start.count lineFeed + 1) (other : List UInt8) :
    read (start ++ lineFeed :: other) = .error problem := by
  obtain ⟨hsplit, hcount⟩ := lines_append_lineFeed start tail
  have hfront : lines (start ++ [lineFeed]) = front := by
    rw [lines_eq_iff.2 hlines] at hsplit
    exact (List.append_inj_left hsplit (hlength.trans hcount.symm)).symm
  rw [read, (lines_append_lineFeed start other).1, hfront]
  exact readLines_of_refused h _

/-- Bytes are refused for the first line at fault and for the first rule that it breaks, or
for their end.  A blank line is reported with its number and with a cell that lies in the
sheet.  What stands after the line feed of the line at fault does not matter. -/
theorem read_refused (bytes : List UInt8) :
    (∀ problem, read bytes = .error problem ↔
      (∃ front rest, LinesOf bytes (front ++ rest) ∧ Refused front problem) ∨
      ∃ found, LinesOf bytes found ∧ Unfinished found problem) ∧
    (∀ number cell, read bytes = .error (.text (.blank number cell)) →
      ∃ line cols rows more, LinesOf bytes (encode line :: more) ∧ Announces line cols rows ∧
        cell.row < rows ∧ cell.col < cols ∧ number = cell.row * cols + cell.col + 2) ∧
    ∀ start tail front rest problem, bytes = start ++ lineFeed :: tail →
      LinesOf bytes (front ++ rest) → Refused front problem →
      front.length = start.count lineFeed + 1 →
      ∀ other, read (start ++ lineFeed :: other) = .error problem := by
  refine ⟨fun problem => read_eq_error_iff, ?_, ?_⟩
  · intro number cell hread
    rcases read_eq_error_iff.1 hread with ⟨front, rest, hlines, hrefused⟩ | ⟨found, -, hends⟩
    · obtain ⟨line, cols, rows, more, rfl, hinside⟩ := blank_inside hrefused
      exact ⟨line, cols, rows, more ++ rest, hlines, hinside⟩
    · cases hends
  · rintro start tail front rest problem rfl hlines hrefused hlength other
    exact read_append_of_refused hlines hrefused hlength other

namespace RefusalWitness

def upToBlank : List UInt8 := encode "2 1\r\n7\n \t"

/-- The second formula is blank, and the line after it is not even UTF-8. -/
theorem read_refused_blank :
    Refused (["2 1", "7", " \t"].map encode) (.text (.blank 3 ⟨0, 1⟩)) ∧
      (∀ other, read (upToBlank ++ lineFeed :: other) = .error (.text (.blank 3 ⟨0, 1⟩))) ∧
      ∃ line cols rows more, LinesOf (upToBlank ++ lineFeed :: [0xFF]) (encode line :: more) ∧
        Announces line cols rows ∧ 0 < rows ∧ 1 < cols := by
  have hwords : WordsOf isBlank "2 1".toList ["2".toList, "1".toList] := by
    have hfound : words isBlank "2 1" = ["2", "1"] := by decide +kernel
    exact words_eq_iff.1 hfound
  have hannounces : Announces "2 1" 2 1 :=
    ⟨_, _, hwords, count?_eq_some_iff.1 (by decide +kernel),
      count?_eq_some_iff.1 (by decide +kernel)⟩
  have hbegins : Begins (["2 1", "7"].map encode) 2 1 ["7"] := {
    lines := ⟨"2 1", rfl, hannounces⟩
    cols_pos := by decide
    rows_pos := by decide
    rows_le := by decide
    size_le := by decide
    not_blank := by
      intro text htext
      obtain rfl := List.mem_singleton.1 htext
      exact allBlank_eq_false_iff.1 (by decide +kernel)
    length_texts := by decide }
  have hblank : allBlank " \t" = true := by decide +kernel
  have hrefused : Refused (["2 1", "7", " \t"].map encode) (.text (.blank 3 ⟨0, 1⟩)) :=
    .blank hbegins (by decide) (List.all_eq_true.1 hblank)
  have hlines : LinesOf (upToBlank ++ lineFeed :: [0xFF])
      (["2 1", "7", " \t"].map encode ++ [[0xFF]]) := lines_eq_iff.1 (by decide +kernel)
  have hread : ∀ other, read (upToBlank ++ lineFeed :: other) =
      .error (.text (.blank 3 ⟨0, 1⟩)) :=
    (read_refused _).2.2 upToBlank [0xFF] _ [[0xFF]] _ rfl hlines hrefused (by decide +kernel)
  obtain ⟨line, cols, rows, more, hheader, hsize, hrow, hcol, -⟩ :=
    (read_refused _).2.1 3 ⟨0, 1⟩ (hread [0xFF])
  exact ⟨hrefused, hread, line, cols, rows, more, hheader, hsize, hrow, hcol⟩

end RefusalWitness

end SheetText

end PostfixSheet
