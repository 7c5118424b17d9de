/-
Sheets that are spelled in another way.

Formulas may differ in what stands between their words, and in the spelling of names: in
the case of the letter and in zeros before the number.  Such formulas have the same tokens,
up to the spelling of references, and those lead to the same cells.  So the calculation of a
sheet goes as that of the respelled one does.
-/
import PostfixSheet.Proofs.FixedText
import PostfixSheet.Proofs.Layout
import PostfixSheet.Proofs.Mirroring
import PostfixSheet.Proofs.Success
import PostfixSheet.Proofs.Words

namespace PostfixSheet

open Text

namespace Text

/-- Two spellings of a word.  In a letter with digits after it, the letter may be in either
case, and zeros may stand before the digits. -/
inductive Respelled : List Char → List Char → Prop
  | same (word : List Char) : Respelled word word
  | name {letter letter' : Char} {digits : List Char} (zeros zeros' : Nat) :
      letter.isAlpha = true → letter'.isAlpha = true → letter.toUpper = letter'.toUpper →
      digits ≠ [] → (∀ c ∈ digits, c.isDigit = true) →
      Respelled (letter :: (List.replicate zeros '0' ++ digits))
        (letter' :: (List.replicate zeros' '0' ++ digits))

variable {letter letter' c : Char} {digits : List Char}

theorem isDigits_replicate_zero_append (hne : digits ≠ [])
    (hdigits : ∀ c ∈ digits, c.isDigit = true) (zeros : Nat) :
    isDigits (List.replicate zeros '0' ++ digits) = true := by
  have hzero : '0'.isDigit = true := by decide
  simp only [isDigits, List.all_append, List.all_replicate, hzero, Bool.and_eq_true,
    Bool.not_eq_true', List.isEmpty_eq_false_iff, List.all_eq_true]
  exact ⟨by simp [hne], by simp, hdigits⟩

/-- Zeros in front do not change the number that digits denote. -/
theorem digitsValue_replicate_zero_append (zeros : Nat) (digits : List Char) :
    digitsValue (List.replicate zeros '0' ++ digits) = digitsValue digits := by
  rw [Decimal.digitsValue_append, Decimal.digitsValue_replicate_zero, Nat.zero_mul, Nat.zero_add]

end Text

namespace Address

variable {letter letter' : Char} {digits : List Char}

/-- A name leads to the same cell in every spelling. -/
theorem locate_name_respelled (hletter : letter.isAlpha = true) (hletter' : letter'.isAlpha = true)
    (hcase : letter.toUpper = letter'.toUpper) (hne : digits ≠ [])
    (hdigits : ∀ c ∈ digits, c.isDigit = true) (zeros zeros' rows cols : Nat) :
    locate (String.ofList (letter' :: (List.replicate zeros' '0' ++ digits))) rows cols =
      locate (String.ofList (letter :: (List.replicate zeros '0' ++ digits))) rows cols := by
  have hparts : parts? (String.ofList (letter' :: (List.replicate zeros' '0' ++ digits))) =
      parts? (String.ofList (letter :: (List.replicate zeros '0' ++ digits))) := by
    simp only [parts?, String.toList_ofList, hletter, hletter',
      isDigits_replicate_zero_append hne hdigits, word?, digitsValue_replicate_zero_append,
      rowOfLetter, hcase]
  rw [locate, locate, hparts]

end Address

theorem isDigit_of_isAlpha {c : Char} (h : c.isAlpha = true) : c.isDigit = false := by
  have hfirst : 'A'.val ≤ c.val := by
    rcases Bool.or_eq_true_iff.1 h with hupper | hlower
    · exact (of_decide_eq_true hupper).1
    · have hsmall : 'a'.val ≤ c.val := of_decide_eq_true (Bool.and_eq_true_iff.1 hlower).1
      exact UInt32.le_trans (by decide) hsmall
  refine Bool.eq_false_iff.2 fun hdigit => ?_
  have hlast : c.val ≤ '9'.val := of_decide_eq_true (Bool.and_eq_true_iff.1 hdigit).2
  exact absurd (UInt32.le_trans hfirst hlast) (by decide)

/-- A letter with digits after it is no number, also if the letter may mark an exponent. -/
theorem Decimal.Literal.ofText?_of_name {letter : Char} {digits : List Char}
    (hletter : letter.isAlpha = true) (hne : digits ≠ [])
    (hdigits : ∀ c ∈ digits, c.isDigit = true) :
    ofText? (String.ofList (letter :: digits)) = none := by
  have hother : ∀ c : Char, c.isAlpha = false → letter ≠ c := by
    rintro c hc rfl
    cases hletter.symm.trans hc
  have hsign : splitSign (letter :: digits) = (false, letter :: digits) := by
    simp [splitSign, hother '-' (by decide), hother '+' (by decide)]
  have hfraction : splitFraction (letter :: digits) = ([], letter :: digits) := by
    simp [splitFraction, hother '.' (by decide)]
  have hnumber : unsigned? (letter :: digits) = none := by
    have hnodigit : ¬letter.isDigit = true := by simp [isDigit_of_isAlpha hletter]
    simp only [unsigned?, List.takeWhile_cons_of_neg hnodigit,
      List.dropWhile_cons_of_neg hnodigit, hfraction, List.append_nil, List.isEmpty_nil, if_true]
  -- the words for infinity and NaN do not go on with a digit
  have hword : ∀ word : String, word.toList.tail.any Char.isDigit = false →
      letter :: digits ≠ word.toList := by
    intro word htail hsame
    rw [← hsame, List.tail_cons, List.any_eq_false] at htail
    obtain ⟨first, hfirst⟩ := List.exists_mem_of_ne_nil digits hne
    exact htail first hfirst (hdigits first hfirst)
  simp only [ofText?, String.toList_ofList, hsign, hnumber, Option.map_none]
  rw [if_neg (hword "Infinity" (by decide)), if_neg (hword "NaN" (by decide))]

theorem Token.ofText_of_name {letter : Char} {digits : List Char} (hletter : letter.isAlpha = true)
    (hne : digits ≠ []) (hdigits : ∀ c ∈ digits, c.isDigit = true) :
    Token.ofText (String.ofList (letter :: digits)) =
      .reference (String.ofList (letter :: digits)) := by
  have hoperators : ∀ symbol ∈ ["+", "-", "*", "/", "++", "--"],
      symbol.toList.any Char.isAlpha = false := by decide
  rw [Token.ofText_of_not_operator, Decimal.Literal.ofText?_of_name hletter hne hdigits]
  rintro symbol hsymbol rfl
  have hfirst := hoperators _ hsymbol
  rw [String.toList_ofList, List.any_eq_false] at hfirst
  exact hfirst letter List.mem_cons_self hletter

/-- Two spellings of a word are tokens that mirror each other in sheets of one size. -/
theorem Token.mirrors_of_respelled {site image : Site} (hrows : image.rows = site.rows)
    (hcols : image.cols = site.cols) {word word' : List Char} (h : Respelled word word') :
    Token.Mirrors id site image (.ofText (String.ofList word)) (.ofText (String.ofList word')) := by
  cases h with
  | same word =>
      refine Token.mirrors_self _ fun text _ => ?_
      rw [hrows, hcols]
  | @name letter letter' digits zeros zeros' hletter hletter' hcase hne hdigits =>
      have hall : ∀ zeros, ∀ c ∈ List.replicate zeros '0' ++ digits, c.isDigit = true := by
        intro zeros c hc
        rcases List.mem_append.1 hc with hzero | hdigit
        · rw [List.eq_of_mem_replicate hzero]
          decide
        · exact hdigits c hdigit
      rw [Token.ofText_of_name hletter (by simp [hne]) (hall zeros),
        Token.ofText_of_name hletter' (by simp [hne]) (hall zeros')]
      apply Token.Mirrors.of_locate_eq
      rw [hrows, hcols]
      exact Address.locate_name_respelled hletter hletter' hcase hne hdigits zeros zeros'
        site.rows site.cols

/-- Formulas differ in what separates their words and in the spelling of these words. -/
def Formula.Respelled (formula formula' : Formula) : Prop :=
  ∃ words words', WordsOf isSeparator formula.text.toList words ∧
    WordsOf isSeparator formula'.text.toList words' ∧
    List.Forall₂ Text.Respelled words words'

theorem Formula.tokens_of_wordsOf {formula : Formula} {words : List (List Char)}
    (h : WordsOf isSeparator formula.text.toList words) :
    formula.tokens = words.map fun word => Token.ofText (String.ofList word) := by
  rw [tokens, h.words_eq, List.map_map]
  rfl

namespace Sheet

variable {sheet other : Sheet}

/-- Sheets of one size differ in the spelling of their formulas. -/
structure Respelled (sheet other : Sheet) : Prop where
  rows_eq : other.rows = sheet.rows
  cols_eq : other.cols = sheet.cols
  formulas : List.Forall₂ Formula.Respelled sheet.formulas.toList other.formulas.toList

theorem Respelled.formula (h : sheet.Respelled other) (cell : Address)
    (inside : sheet.Holds cell) (inside' : other.Holds cell) :
    (sheet.site cell inside).formula.Respelled (other.site cell inside').formula := by
  have hplace := index_lt inside
  have hrespelled := (List.forall₂_iff_get.1 h.formulas).2 (cell.row * sheet.cols + cell.col)
    (by simpa using hplace) (by simpa [h.rows_eq, h.cols_eq] using hplace)
  simpa [site, index, h.cols_eq] using hrespelled

theorem Respelled.mirrors (h : sheet.Respelled other) : sheet.Mirrors other id where
  holds := by
    intro cell inside
    rw [Holds, h.rows_eq, h.cols_eq]
    exact inside
  injOn := fun _ _ hsame => hsame
  tokens := by
    intro cell inside inside'
    change other.Holds cell at inside'
    change List.Forall₂ (Token.Mirrors id (sheet.site cell inside) (other.site cell inside'))
      (sheet.site cell inside).formula.tokens (other.site cell inside').formula.tokens
    obtain ⟨words, words', hwords, hwords', hspelled⟩ := h.formula cell inside inside'
    rw [Formula.tokens_of_wordsOf hwords, Formula.tokens_of_wordsOf hwords',
      List.forall₂_map_left_iff, List.forall₂_map_right_iff]
    exact hspelled.imp fun _ _ hword => Token.mirrors_of_respelled h.rows_eq h.cols_eq hword

/-- Runs that have come equally far in sheets of one size have the same marks, row by row. -/
theorem Respelled.marks_eq (h : sheet.Respelled other) {run : Run sheet} {run' : Run other}
    (hruns : run.Mirrors id run') :
    run'.progress.entries.toList.map Entry.mark = run.progress.entries.toList.map Entry.mark := by
  have hsize : other.size = sheet.size := by rw [size, size, h.rows_eq, h.cols_eq]
  apply List.ext_getElem
  · simp [hsize]
  · intro i _ hi
    have hplace : i < sheet.size := by simpa using hi
    have inside := sheet.holds_address ⟨i, hplace⟩
    have inside' : other.Holds (sheet.address i) := h.mirrors.holds inside
    have hindex : (other.index (sheet.address i) inside').val = i := by
      simp only [index, address, addressIn, h.cols_eq]
      exact Nat.div_add_mod' i sheet.cols
    have hmark := hruns.mark (sheet.address i) inside inside'
    rw [sheet.index_address ⟨i, hplace⟩] at hmark
    simpa [Progress.mark, Progress.entry, hindex] using hmark

/-- Where stages and values agree, they are known from the marks. -/
theorem stages_values_eq {size size' : Nat} {left : Progress size} {right : Progress size'}
    (hl : left.Agreeing) (hr : right.Agreeing)
    (hmarks : left.entries.toList.map Entry.mark = right.entries.toList.map Entry.mark) :
    left.entries.toList.map (fun entry => (entry.stage, entry.value)) =
      right.entries.toList.map (fun entry => (entry.stage, entry.value)) := by
  apply List.ext_getElem
  · simpa using congrArg List.length hmarks
  · intro i hi hi'
    have hplace : i < size := by simpa using hi
    have hplace' : i < size' := by simpa using hi'
    have hmark : left.mark ⟨i, hplace⟩ = right.mark ⟨i, hplace'⟩ := by
      have hboth := congrArg (fun marks => marks[i]?) hmarks
      simpa [Progress.mark, Progress.entry, hplace, hplace'] using hboth
    simpa [Progress.entry] using (hl ⟨i, hplace⟩).stage_value_eq (hr ⟨i, hplace'⟩) hmark

/-- The values of all cells are known from the marks. -/
theorem values?_eq_mapM_marks {size : Nat} (progress : Progress size) :
    progress.values? = (progress.entries.toList.map Entry.mark).mapM Mark.value? := by
  rw [List.mapM_map]
  rfl

/-- A sheet and the respelled one are calculated with the same values, or both calculations
fail for the same reason in the same cell, with the same circle if there is one; only the
texts that a fault quotes may differ.  The same cells have been entered and have got their
values then, after as many evaluations. -/
theorem computeAll_of_respelled (h : sheet.Respelled other) :
    ((∃ values, (sheet.computeAll (.fresh _)).1 = .ok () ∧
        (other.computeAll (.fresh _)).1 = .ok () ∧
        (sheet.computeAll (.fresh _)).2.values? = some values ∧
        (other.computeAll (.fresh _)).2.values? = some values) ∨
      ∃ fault fault', (sheet.computeAll (.fresh _)).1 = .error fault ∧
        (other.computeAll (.fresh _)).1 = .error fault' ∧ fault.Mirrors id fault') ∧
    (other.computeAll (.fresh _)).2.entries.toList.map
        (fun entry => (entry.stage, entry.value)) =
      (sheet.computeAll (.fresh _)).2.entries.toList.map
        (fun entry => (entry.stage, entry.value)) ∧
    (other.computeAll (.fresh _)).2.evaluations = (sheet.computeAll (.fresh _)).2.evaluations := by
  have haddresses : sheet.addresses.map id = other.addresses := by
    rw [List.map_id, addresses, addresses, size, size, h.rows_eq, h.cols_eq]
    exact List.map_congr_left fun place _ => by rw [address, address, h.cols_eq]
  obtain ⟨hanswer, hruns⟩ := h.mirrors.computeEach
    (fun _ (hcell : _ ∈ sheet.addresses) => holds_of_mem_addresses hcell)
    (Run.mirrors_fresh sheet other id)
  rw [haddresses] at hanswer hruns
  change Mirrored id (sheet.computeAll (.fresh _)).1 (other.computeAll (.fresh _)).1 at hanswer
  have hmarks := h.marks_eq hruns
  refine ⟨?_, stages_values_eq (agreeing_computeAll (Progress.agreeing_fresh _))
    (agreeing_computeAll (Progress.agreeing_fresh _)) hmarks, hruns.evaluations⟩
  cases hfound : (sheet.computeAll (.fresh _)).1 with
  | ok done =>
      obtain ⟨values, hvalues, -⟩ := sheet.consistent_fresh.values?_computeAll hfound
      refine Or.inl ⟨_, rfl, hanswer.eq_ok_iff.1 hfound, hvalues, ?_⟩
      rw [← hvalues, values?_eq_mapM_marks, values?_eq_mapM_marks]
      exact congrArg _ hmarks
  | error fault =>
      obtain ⟨fault', hfault', hmirrors⟩ := hanswer.exists_fault hfound
      exact Or.inr ⟨fault, fault', rfl, hfault', hmirrors⟩

namespace RespellingWitness

/-- The second cell and the third one refer to each other. -/
def plain : Sheet :=
  ofFormulas 5 1 #v[⟨"E1 1 +"⟩, ⟨"C1"⟩, ⟨"A1 B1 *"⟩, ⟨"4"⟩, ⟨"2"⟩] (by decide)

/-- In lower case the name of the last cell looks like an exponent. -/
def fancy : Sheet :=
  ofFormulas 5 1 #v[⟨"e01\t1  +"⟩, ⟨" C1"⟩, ⟨"A1 b001 * "⟩, ⟨"4"⟩, ⟨"2"⟩] (by decide)

def plainCircle : Circle where
  trigger := ⟨2, 0⟩
  triggerText := "A1 B1 *"
  reference := "B1"
  revisited := ⟨1, 0⟩
  revisitedText := "C1"
  chain := [⟨1, 0⟩, ⟨2, 0⟩, ⟨1, 0⟩]

theorem formula_respelled {formula formula' : Formula} {found found' : List (List Char)}
    (hwords : (words isSeparator formula.text).map String.toList = found)
    (hwords' : (words isSeparator formula'.text).map String.toList = found')
    (h : List.Forall₂ Text.Respelled found found') : formula.Respelled formula' :=
  ⟨found, found', hwords ▸ words_eq_iff.1 rfl, hwords' ▸ words_eq_iff.1 rfl, h⟩

theorem respelled_fancy : plain.Respelled fancy where
  rows_eq := rfl
  cols_eq := rfl
  formulas := by
    have hlast : Text.Respelled ['E', '1'] ['e', '0', '1'] :=
      .name 0 1 (by decide) (by decide) (by decide) (List.cons_ne_nil '1' [])
        (List.all_eq_true.1 (by decide))
    have hsecond : Text.Respelled ['B', '1'] ['b', '0', '0', '1'] :=
      .name 0 2 (by decide) (by decide) (by decide) (List.cons_ne_nil '1' [])
        (List.all_eq_true.1 (by decide))
    have hsum : Formula.Respelled ⟨"E1 1 +"⟩ ⟨"e01\t1  +"⟩ :=
      formula_respelled (by decide +kernel) (by decide +kernel)
        (.cons hlast (.cons (.same ['1']) (.cons (.same ['+']) .nil)))
    have hback : Formula.Respelled ⟨"C1"⟩ ⟨" C1"⟩ :=
      formula_respelled (by decide +kernel) (by decide +kernel) (.cons (.same ['C', '1']) .nil)
    have hproduct : Formula.Respelled ⟨"A1 B1 *"⟩ ⟨"A1 b001 * "⟩ :=
      formula_respelled (by decide +kernel) (by decide +kernel)
        (.cons (.same ['A', '1']) (.cons hsecond (.cons (.same ['*']) .nil)))
    have hnumber : ∀ formula : Formula, formula.Respelled formula := fun formula =>
      formula_respelled rfl rfl (List.forall₂_same.2 fun word _ => .same word)
    exact .cons hsum (.cons hback (.cons hproduct (.cons (hnumber _) (.cons (hnumber _) .nil))))

/-- Both calculations meet the same circle, after the same evaluations. -/
theorem computeAll_of_respelled_fancy :
    plain.Respelled fancy ∧
      (plain.computeAll (.fresh _)).1 = .error (.circular plainCircle) ∧
      (∃ circle, (fancy.computeAll (.fresh _)).1 = .error (.circular circle) ∧
        circle.trigger = ⟨2, 0⟩ ∧ circle.chain = [⟨1, 0⟩, ⟨2, 0⟩, ⟨1, 0⟩]) ∧
      (fancy.computeAll (.fresh _)).2.evaluations = 4 := by
  have hfailed : (plain.computeAll (.fresh _)).1 = .error (.circular plainCircle) := by
    decide +kernel
  have hevaluations : (plain.computeAll (.fresh _)).2.evaluations = 4 := by decide +kernel
  obtain ⟨hanswer, -, hsame⟩ := computeAll_of_respelled respelled_fancy
  refine ⟨respelled_fancy, hfailed, ?_, hsame.trans hevaluations⟩
  rcases hanswer with ⟨-, hok, -⟩ | ⟨fault, fault', hfault, hfault', hmirrors⟩
  · cases hfailed.symm.trans hok
  · cases hfailed.symm.trans hfault
    cases hmirrors with
    | @circular _ circle htrigger _ hchain => exact ⟨circle, hfault', htrigger, hchain⟩

end RespellingWitness

end Sheet

end PostfixSheet
