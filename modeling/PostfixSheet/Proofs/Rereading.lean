/-
The values of a sheet, read as a sheet again.

What is written for a complete calculation describes a sheet of the same size, whose
formulas are the lines with the values.  Each of them is one number, so that this sheet
can be calculated, with one run of a formula for each cell.
-/
import PostfixSheet.Decimal.Packing
import PostfixSheet.Proofs.Order
import PostfixSheet.Proofs.Reading
import PostfixSheet.Proofs.Writing

namespace PostfixSheet

open Text

theorem Decimal.isSeparator_of_shows {c : Char} (h : Decimal.Shows c) : isSeparator c = false :=
  Bool.eq_false_iff.2 fun hcut =>
    Bool.eq_false_iff.1 (Decimal.isBlank_of_shows h) (isBlank_of_isSeparator hcut)

/-- A number has been written on a line with so many places, and the line has been read as
another number. -/
structure Rewritten (places : Nat) (value : Float) (line : String) (again : Float) : Prop where
  written : Decimal.fixed? places value = some line
  literal : Decimal.Literal.ofText? line = some (.written places value)
  denoted : (Decimal.Literal.written places value).value = again
  /-- What is not finite comes back as it was. -/
  nan : Decimal.exact value = .nan → Decimal.exact again = .nan
  infinite : ∀ negative, Decimal.exact value = .infinite negative →
    Decimal.exact again = .infinite negative

theorem rewritten_of_fixed? {places : Nat} {value : Float} {line : String}
    (h : Decimal.fixed? places value = some line) :
    Rewritten places value line (Decimal.Literal.written places value).value where
  written := h
  literal := Decimal.ofText?_fixed? h
  denoted := rfl
  nan := by
    intro hnan
    have hnumber : Decimal.exact Decimal.Literal.nan.value = .nan := by decide +kernel
    rwa [Decimal.Literal.written, hnan]
  infinite := by
    intro negative hinfinite
    rw [Decimal.Literal.written, hinfinite]
    exact Decimal.exact_ofMagnitude_infinity negative

theorem Formula.tokens_of_literal {text : String} {literal : Decimal.Literal}
    (h : Decimal.Literal.ofText? text = some literal)
    (hshows : ∀ c ∈ text.toList, Decimal.Shows c) :
    (Formula.mk text).tokens = [.number literal.value] := by
  have hword : words isSeparator text = [text] :=
    words_eq_singleton (Decimal.Literal.toList_ne_nil h)
      fun c hc => Decimal.isSeparator_of_shows (hshows c hc)
  rw [tokens, hword, List.map_singleton, Token.ofText_of_literal h]

namespace Sheet

variable {sheet : Sheet} {cell : Address} {value : Float}

theorem denotes_of_number (inside : sheet.Holds cell)
    (h : (sheet.site cell inside).formula.tokens = [.number value]) : sheet.Denotes cell value := by
  refine .intro inside (fun _ => 0) ?_ ?_
  · intro target hrefers
    obtain ⟨text, htext, -⟩ := (refers_iff inside).1 hrefers
    have htoken := Formula.mem_references.1 htext
    rw [h] at htoken
    cases List.mem_singleton.1 htoken
  · rw [Site.evaluate, h]
    rfl

/-- When every cell has its value, each has the one that its formula determines. -/
theorem Consistent.mark_eq_done {progress : Progress sheet.size} (h : sheet.Consistent progress)
    (hcomplete : progress.Complete) (inside : sheet.Holds cell)
    (hdenotes : sheet.Denotes cell value) :
    progress.mark (sheet.index cell inside) = .done value := by
  obtain ⟨kept, hkept⟩ := Mark.isDone_iff.1 (hcomplete (sheet.index cell inside))
  rw [hkept, hdenotes.unique (h.sound.denotes_index inside hkept)]

theorem evaluations_of_computeAll_eq_ok (hok : (sheet.computeAll (.fresh _)).1 = .ok ()) :
    (sheet.computeAll (.fresh _)).2.evaluations = sheet.size := by
  obtain ⟨hsucceeds, hsame⟩ := computeEach_of_ok hok
  have houtcome := sheet.outcome_fresh.of_succeeds hsucceeds
  rw [← hsame] at houtcome
  have hpending : (⟨(sheet.computeAll (.fresh _)).2, .empty⟩ : Run sheet).pendingCount = 0 := by
    have hcomplete := complete_of_computeAll_eq_ok hok
    simp [Run.pendingCount, Run.Done, hcomplete _]
  have hworkload : (⟨(sheet.computeAll (.fresh _)).2, .empty⟩ : Run sheet).workload = sheet.size :=
    houtcome.workload
  rwa [Run.workload, hpending] at hworkload

/-- A sheet with one number in each cell can be calculated, and these are its values. -/
theorem computeAll_of_numbers {numbers : ∀ cell, sheet.Holds cell → Float}
    (h : ∀ cell, ∀ inside : sheet.Holds cell,
      (sheet.site cell inside).formula.tokens = [.number (numbers cell inside)]) :
    (sheet.computeAll (.fresh _)).1 = .ok () ∧
      (sheet.computeAll (.fresh _)).2.evaluations = sheet.size ∧
      ∀ cell, ∀ inside : sheet.Holds cell,
        (sheet.computeAll (.fresh _)).2.mark (sheet.index cell inside) =
          .done (numbers cell inside) := by
  have hdenotes : ∀ cell, ∀ inside : sheet.Holds cell,
      sheet.Denotes cell (numbers cell inside) := fun cell inside =>
    denotes_of_number inside (h cell inside)
  have hok : (sheet.computeAll (.fresh _)).1 = .ok () :=
    sheet.consistent_fresh.computeAll_eq_ok_iff.2 fun cell inside => ⟨_, hdenotes cell inside⟩
  have hconsistent : sheet.Consistent (sheet.computeAll (.fresh _)).2 :=
    sheet.consistent_fresh.computeEach sheet.addresses
  exact ⟨hok, evaluations_of_computeAll_eq_ok hok, fun cell inside =>
    hconsistent.mark_eq_done (complete_of_computeAll_eq_ok hok) inside (hdenotes cell inside)⟩

end Sheet

namespace Results

variable {sheet : Sheet} {lines : Fin sheet.size → String}

theorem toList_header (sheet : Sheet) :
    (header sheet).toList = Nat.toDigits 10 sheet.cols ++ ' ' :: Nat.toDigits 10 sheet.rows := by
  simp [header]

theorem spells_toDigits {n : Nat} (h : n ≤ maxWord) : Spells (Nat.toDigits 10 n) n :=
  ⟨_, Or.inl rfl, Nat.toDigits_ne_nil, fun _ hc => Decimal.isDigit_toDigits hc,
    digitsValue_toDigits n, h⟩

theorem announces_header (sheet : Sheet) : Announces (header sheet) sheet.cols sheet.rows := by
  have hdigits : ∀ n, ∀ c ∈ Nat.toDigits 10 n, isBlank c = false := fun n c hc =>
    Decimal.isBlank_of_shows (Decimal.shows_of_isDigit (Decimal.isDigit_toDigits hc))
  have hcols : sheet.cols ≤ maxWord :=
    Nat.le_trans (Nat.le_mul_of_pos_left _ sheet.rows_pos) sheet.size_le
  have hrows : sheet.rows ≤ maxWord :=
    Nat.le_trans (Nat.le_mul_of_pos_right _ sheet.cols_pos) sheet.size_le
  have hspace : isBlank ' ' = true := by decide
  have hblank : ∀ c, (' ' :: Nat.toDigits 10 sheet.rows).head? = some c → isBlank c = true := by
    rintro c ⟨⟩
    exact hspace
  have hsecond : WordsOf isBlank ([' '] ++ Nat.toDigits 10 sheet.rows ++ [])
      [Nat.toDigits 10 sheet.rows] :=
    .word (by simpa using hspace) Nat.toDigits_ne_nil (hdigits _) (by simp) (.none (by simp))
  rw [List.append_nil, List.singleton_append] at hsecond
  have hfirst : WordsOf isBlank ([] ++ Nat.toDigits 10 sheet.cols ++ ' ' :: _) _ :=
    .word (by simp) Nat.toDigits_ne_nil (hdigits _) hblank hsecond
  rw [List.nil_append, ← toList_header] at hfirst
  exact ⟨_, _, hfirst, spells_toDigits hcols, spells_toDigits hrows⟩

/-- A header is made up of characters that show, and spaces. -/
theorem shows_or_eq_of_mem_header {c : Char} (hc : c ∈ (header sheet).toList) :
    Decimal.Shows c ∨ c = ' ' := by
  rw [toList_header, List.mem_append, List.mem_cons] at hc
  rcases hc with hcols | hblank | hrows
  · exact Or.inl (Decimal.shows_of_isDigit (Decimal.isDigit_toDigits hcols))
  · exact Or.inr hblank
  · exact Or.inl (Decimal.shows_of_isDigit (Decimal.isDigit_toDigits hrows))

theorem shows_or_eq_of_mem_line {places : Nat} {values : Fin sheet.size → Float} {text : String}
    (hlines : ∀ place, Decimal.fixed? places (values place) = some (lines place))
    (htext : text ∈ header sheet :: List.ofFn lines) {c : Char} (hc : c ∈ text.toList) :
    Decimal.Shows c ∨ c = ' ' := by
  rcases List.mem_cons.1 htext with rfl | hline
  · exact shows_or_eq_of_mem_header hc
  · obtain ⟨place, rfl⟩ := List.mem_ofFn.1 hline
    exact Or.inl (Decimal.shows_fixed? (hlines place) c hc)

/-- What is written describes a sheet of the same size with the lines as its formulas. -/
theorem describes_written {places : Nat} {values : Fin sheet.size → Float}
    (hlines : ∀ place, Decimal.fixed? places (values place) = some (lines place)) :
    Describes (encode (unlines (header sheet :: List.ofFn lines))) sheet.cols sheet.rows
      (List.ofFn lines) where
  lines := by
    refine ⟨header sheet, linesOf_encode_unlines ?_, announces_header sheet⟩
    intro text htext
    exact ⟨fun hc => absurd (shows_or_eq_of_mem_line hlines htext hc) (by decide),
      fun hc => absurd (shows_or_eq_of_mem_line hlines htext hc) (by decide)⟩
  cols_pos := sheet.cols_pos
  rows_pos := sheet.rows_pos
  rows_le := sheet.rows_le
  size_le := by
    rw [Nat.mul_comm]
    exact sheet.size_le
  length_texts := by rw [List.length_ofFn, Nat.mul_comm]
  not_blank := by
    intro text htext
    obtain ⟨place, rfl⟩ := List.mem_ofFn.1 htext
    obtain ⟨c, hc⟩ := List.exists_mem_of_ne_nil _
      (Decimal.Literal.toList_ne_nil (Decimal.ofText?_fixed? (hlines place)))
    exact ⟨c, hc, Decimal.isBlank_of_shows (Decimal.shows_fixed? (hlines place) c hc)⟩

/-- The values of a complete calculation are written, and what is written is read as a sheet
of the same size.  In place of each formula it has the line with the value, which is one
number and refers to nothing.  So this sheet can be calculated, with one run of a formula
for each cell, and its values are the numbers on the lines. -/
theorem read_written {progress : Progress sheet.size} {places : Nat}
    (hcomplete : progress.Complete) (hplaces : places ≤ Decimal.maxPlaces) :
    ∃ (text : String) (again : Sheet) (later : Progress again.size),
      write sheet progress places .unbounded = (.ok (), ⟨none, text⟩) ∧
      SheetText.read (encode text) = .ok again ∧
      again.rows = sheet.rows ∧ again.cols = sheet.cols ∧
      again.computeAll (.fresh _) = (.ok (), later) ∧
      later.evaluations = sheet.rows * sheet.cols ∧
      ∀ cell, ∀ inside : sheet.Holds cell, ∃ inside' : again.Holds cell, ∃ value line number,
        progress.mark (sheet.index cell inside) = .done value ∧
        Rewritten places value line number ∧
        (Text.lines (encode text))[cell.row * sheet.cols + cell.col + 1]? = some (encode line) ∧
        again.formula? cell = some ⟨line⟩ ∧
        (Formula.mk line).tokens = [.number number] ∧ (Formula.mk line).references = [] ∧
        later.mark (again.index cell inside') = .done number := by
  obtain ⟨values, lines, hvalues, hlines⟩ := exists_lines hcomplete hplaces
  have hdescribes := describes_written hlines
  obtain ⟨again, hread, hcols, hrows, hformulas⟩ := SheetText.exists_read_eq_ok hdescribes
  have hholds : ∀ cell, again.Holds cell ↔ sheet.Holds cell := by
    intro cell
    rw [Sheet.Holds, Sheet.Holds, hrows, hcols]
  have hformula : ∀ cell, ∀ inside : sheet.Holds cell,
      again.formula? cell = some ⟨lines (sheet.index cell inside)⟩ := by
    intro cell inside
    rw [Sheet.formula?_eq_getElem? ((hholds cell).2 inside), hformulas, hcols, List.map_ofFn,
      List.getElem?_ofFn, dif_pos (Sheet.index_lt inside)]
    rfl
  have htokens : ∀ place, (Formula.mk (lines place)).tokens =
      [.number (Decimal.Literal.written places (values place)).value] := fun place =>
    Formula.tokens_of_literal (Decimal.ofText?_fixed? (hlines place))
      (Decimal.shows_fixed? (hlines place))
  have hsites : ∀ cell, ∀ inside' : again.Holds cell, (again.site cell inside').formula.tokens =
      [.number (Decimal.Literal.written places
        (values (sheet.index cell ((hholds cell).1 inside')))).value] := by
    intro cell inside'
    have hsite := (Sheet.formula?_eq_some inside').symm.trans
      (hformula cell ((hholds cell).1 inside'))
    rw [Option.some.inj hsite, htokens]
  obtain ⟨hok, hevaluations, hmarks⟩ := Sheet.computeAll_of_numbers hsites
  refine ⟨_, again, (again.computeAll (.fresh _)).2, write_of_values hvalues hlines, hread, hrows,
    hcols, Prod.ext hok rfl, ?_, ?_⟩
  · rw [hevaluations, Sheet.size, hrows, hcols]
  · intro cell inside
    refine ⟨(hholds cell).2 inside, _, _, _, hvalues (sheet.index cell inside),
      rewritten_of_fixed? (hlines _), ?_, hformula cell inside, htokens _, ?_, hmarks cell _⟩
    · obtain ⟨_, hlinesOf, -⟩ := hdescribes.lines
      rw [lines_eq_iff.2 hlinesOf, List.getElem?_cons_succ, List.map_ofFn, List.getElem?_ofFn,
        dif_pos (Sheet.index_lt inside)]
      rfl
    · rw [Formula.references, htokens]
      rfl

namespace RewritingWitness

/-- A fraction, a negative zero and both kinds of values that are not finite. -/
def quotients : Sheet where
  rows := 2
  cols := 2
  formulas := #v[⟨"2 3 /"⟩, ⟨"-1 0 *"⟩, ⟨"A1 0 /"⟩, ⟨"0 0 /"⟩]
  rows_pos := Nat.two_pos
  cols_pos := Nat.two_pos
  rows_le := by decide
  size_le := by decide
  not_blank := by decide

def calculated : Progress quotients.size := (quotients.computeAll (.fresh _)).2

def text : String := "2 2\n0.67\n-0.00\nInfinity\nNaN\n"

/-- The sheet that is read has no formulas but numbers. -/
theorem read_written_quotients :
    calculated.Complete ∧ write quotients calculated 2 .unbounded = (.ok (), ⟨none, text⟩) ∧
      ∃ again, SheetText.read (encode text) = .ok again ∧ again.rows = 2 ∧ again.cols = 2 ∧
        (again.computeAll (.fresh _)).1 = .ok () ∧
        (again.computeAll (.fresh _)).2.evaluations = 4 ∧
        again.formula? ⟨0, 1⟩ = some ⟨"-0.00"⟩ := by
  have hcomplete : calculated.Complete :=
    Sheet.complete_of_computeAll_eq_ok (by decide +kernel)
  have hwritten : write quotients calculated 2 .unbounded = (.ok (), ⟨none, text⟩) := by
    decide +kernel
  obtain ⟨found, again, later, hfound, hread, hrows, hcols, hlater, hevaluations, hcells⟩ :=
    read_written hcomplete (show 2 ≤ Decimal.maxPlaces by decide)
  obtain rfl : text = found :=
    congrArg (fun result => result.2.received) (hwritten.symm.trans hfound)
  obtain ⟨-, value, line, number, -, -, hline, hformula, -⟩ := hcells ⟨0, 1⟩ (by decide)
  have hsecond : (Text.lines (encode text))[2]? = some (encode "-0.00") := by decide +kernel
  obtain rfl : "-0.00" = line := encode_inj.1 (Option.some.inj (hsecond.symm.trans hline))
  refine ⟨hcomplete, hwritten, again, hread, hrows, hcols, ?_, ?_, hformula⟩
  · rw [hlater]
  · rw [hlater]
    exact hevaluations

end RewritingWitness

end Results

end PostfixSheet
