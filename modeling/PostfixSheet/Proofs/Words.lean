/-
A text and the words in it.

`WordsOf` says which words a text is made up of, from the characters that stand between
them.  A text has its words in one way only, and `words` finds them.
-/
import Mathlib.Data.List.TakeWhile
import PostfixSheet.Text.Blank

namespace PostfixSheet.Text

variable {cut : Char → Bool} {gap word rest : List Char} {c : Char}

/-- Characters are these words, with gaps of the class `cut` around them.  A word goes on
up to the next gap or the end. -/
inductive WordsOf (cut : Char → Bool) : List Char → List (List Char) → Prop
  | none {gap : List Char} : (∀ c ∈ gap, cut c = true) → WordsOf cut gap []
  | word {gap word rest : List Char} {others : List (List Char)} :
      (∀ c ∈ gap, cut c = true) → word ≠ [] → (∀ c ∈ word, cut c = false) →
      (∀ c, rest.head? = some c → cut c = true) → WordsOf cut rest others →
      WordsOf cut (gap ++ word ++ rest) (word :: others)

/-- The words among characters, as `words` finds them. -/
def pieces (cut : Char → Bool) (cs : List Char) : List (List Char) :=
  (cs.splitOnP cut).filter (!·.isEmpty)

theorem pieces_nil : pieces cut [] = [] := rfl

theorem pieces_cons_of_cut (h : cut c = true) (rest : List Char) :
    pieces cut (c :: rest) = pieces cut rest := by
  simp [pieces, List.splitOnP_cons_eq_if_modifyHead, h]

theorem pieces_append_of_cut (h : ∀ c ∈ gap, cut c = true) (rest : List Char) :
    pieces cut (gap ++ rest) = pieces cut rest := by
  induction gap with
  | nil => rfl
  | cons c gap ih =>
      rw [List.cons_append, pieces_cons_of_cut (h c List.mem_cons_self)]
      exact ih fun other hother => h other (List.mem_cons_of_mem c hother)

theorem splitOnP_word (h : ∀ c ∈ word, cut c = false) : word.splitOnP cut = [word] :=
  List.splitOnP_eq_singleton h

theorem pieces_append_of_word (hne : word ≠ []) (h : ∀ c ∈ word, cut c = false)
    (hrest : ∀ c, rest.head? = some c → cut c = true) :
    pieces cut (word ++ rest) = word :: pieces cut rest := by
  cases rest with
  | nil => simp [pieces, splitOnP_word h, hne]
  | cons c rest =>
      have hcut : cut c = true := hrest c rfl
      rw [pieces_cons_of_cut hcut, pieces, List.splitOnP_append_cons word rest hcut,
        splitOnP_word h, List.filter_append]
      simp [pieces, hne]

/-- Characters are a gap, or a gap, a word and what follows it. -/
theorem gap_or_word (cut : Char → Bool) (cs : List Char) :
    (∀ c ∈ cs, cut c = true) ∨ ∃ gap word rest, cs = gap ++ word ++ rest ∧
      (∀ c ∈ gap, cut c = true) ∧ word ≠ [] ∧ (∀ c ∈ word, cut c = false) ∧
      ∀ c, rest.head? = some c → cut c = true := by
  have hsplit : cs.takeWhile cut ++ cs.dropWhile cut = cs := List.takeWhile_append_dropWhile
  have hgap : ∀ c ∈ cs.takeWhile cut, cut c = true := fun c hc => List.mem_takeWhile_imp hc
  have hfirst := List.head?_dropWhile_not cut cs
  generalize cs.takeWhile cut = gap at hsplit hgap
  generalize cs.dropWhile cut = tail at hsplit hfirst
  cases tail with
  | nil =>
      left
      rwa [← hsplit, List.append_nil]
  | cons first tail =>
      right
      refine ⟨gap, (first :: tail).takeWhile (fun c => !cut c),
        (first :: tail).dropWhile (fun c => !cut c), ?_, hgap, ?_, ?_, ?_⟩
      · rw [List.append_assoc, List.takeWhile_append_dropWhile, hsplit]
      · simpa using hfirst
      · intro c hc
        simpa using List.mem_takeWhile_imp hc
      · intro c hc
        have hnext := List.head?_dropWhile_not (fun c => !cut c) (first :: tail)
        rw [hc] at hnext
        simpa using hnext

theorem wordsOf_pieces (cs : List Char) : WordsOf cut cs (pieces cut cs) := by
  induction hlength : cs.length using Nat.strongRecOn generalizing cs with
  | ind length ih =>
      rcases gap_or_word cut cs with hgap | ⟨gap, word, rest, rfl, hgap, hne, hletters, hnext⟩
      · have hnone : pieces cut cs = [] := by
          rw [← List.append_nil cs, pieces_append_of_cut hgap, pieces_nil]
        exact hnone ▸ .none hgap
      · have hshorter : rest.length < length := by
          have hpositive := List.length_pos_iff.2 hne
          simp only [List.length_append] at hlength
          omega
        have hpieces : pieces cut (gap ++ word ++ rest) = word :: pieces cut rest := by
          rw [List.append_assoc, pieces_append_of_cut hgap,
            pieces_append_of_word hne hletters hnext]
        rw [hpieces]
        exact .word hgap hne hletters hnext (ih rest.length hshorter rest rfl)

theorem WordsOf.pieces_eq {cs : List Char} {found : List (List Char)}
    (h : WordsOf cut cs found) : pieces cut cs = found := by
  induction h with
  | @none gap hgap =>
      rw [← List.append_nil gap, pieces_append_of_cut hgap, pieces_nil]
  | word hgap hne hletters hnext _ ih =>
      rw [List.append_assoc, pieces_append_of_cut hgap,
        pieces_append_of_word hne hletters hnext, ih]

/-- The words of a text are the ones that it is made up of, and no others. -/
theorem words_eq_iff {text : String} {found : List String} :
    words cut text = found ↔ WordsOf cut text.toList (found.map String.toList) := by
  have hwords : words cut text = (pieces cut text.toList).map String.ofList := rfl
  rw [hwords]
  constructor
  · rintro rfl
    have hpieces : WordsOf cut text.toList (pieces cut text.toList) := wordsOf_pieces _
    simpa [Function.comp_def] using hpieces
  · intro h
    simp [h.pieces_eq, Function.comp_def]

theorem WordsOf.words_eq {text : String} {found : List (List Char)}
    (h : WordsOf cut text.toList found) : words cut text = found.map String.ofList :=
  words_eq_iff.2 (by simpa [Function.comp_def] using h)

theorem words_eq_singleton {text : String} (hne : text.toList ≠ [])
    (h : ∀ c ∈ text.toList, cut c = false) : words cut text = [text] := by
  have hword : WordsOf cut ([] ++ text.toList ++ []) [text.toList] :=
    .word (by simp) hne h (by simp) (.none (by simp))
  rw [words_eq_iff]
  simpa using hword

end PostfixSheet.Text
