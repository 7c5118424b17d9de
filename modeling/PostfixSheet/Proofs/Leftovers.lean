/-
Values that are left over at the end of a formula.

A formula of a sheet has a token, since separators are blank and not all of its characters
are.  The first token puts a value on the stack, unless it fails, and none after it takes the
last value away.  So a formula never ends without a value; when its values are not one, they
are more.  The fault of a formula is passed on as it is to all formulas that refer to it.
-/
import PostfixSheet.Proofs.Failure
import PostfixSheet.Proofs.Words

namespace PostfixSheet

open Text

/-- Whatever is not cut away stands in a word. -/
theorem Text.WordsOf.exists_mem_word {cut : Char → Bool} {cs : List Char}
    {found : List (List Char)} (h : WordsOf cut cs found) {c : Char} (hc : c ∈ cs)
    (hkept : cut c = false) : ∃ word ∈ found, c ∈ word := by
  induction h with
  | none hgap =>
      have hcut := hgap c hc
      rw [hkept] at hcut
      cases hcut
  | @word gap word rest others hgap _ _ _ _ ih =>
      simp only [List.mem_append] at hc
      rcases hc with (hin | hin) | hin
      · have hcut := hgap c hin
        rw [hkept] at hcut
        cases hcut
      · exact ⟨word, List.mem_cons_self, hin⟩
      · obtain ⟨other, hother, hmem⟩ := ih hin
        exact ⟨other, List.mem_cons_of_mem word hother, hmem⟩

theorem Text.exists_mem_words {cut : Char → Bool} {text : String} {c : Char}
    (hc : c ∈ text.toList) (hkept : cut c = false) :
    ∃ word ∈ words cut text, c ∈ word.toList := by
  obtain ⟨word, hword, hmem⟩ := (words_eq_iff.1 rfl).exists_mem_word hc hkept
  obtain ⟨found, hfound, rfl⟩ := List.mem_map.1 hword
  exact ⟨found, hfound, hmem⟩

/-- A character that is not blank is not a separator either, and so it stands in a token. -/
theorem Formula.tokens_ne_nil {formula : Formula} (h : formula.isBlank = false) :
    formula.tokens ≠ [] := by
  obtain ⟨c, hc, hblank⟩ := List.all_eq_false.1 h
  have hkept : isSeparator c = false :=
    Bool.eq_false_iff.2 fun hcut => hblank (isBlank_of_isSeparator hcut)
  obtain ⟨word, hword, -⟩ := exists_mem_words hc hkept
  exact List.ne_nil_of_mem (List.mem_map_of_mem hword)

/-- Tokens that start on a value, or put one there first, do not end without a value. -/
theorem Site.leftover_of_faultFrom? {site : Site} {tokens : List Token} {depth : Nat}
    {cell : Address} {text : String} {remaining : Nat} (hsome : tokens ≠ [] ∨ 1 ≤ depth)
    (h : site.faultFrom? tokens depth = some (.leftover cell text remaining)) :
    cell = site.cell ∧ text = site.formula.text ∧ 2 ≤ remaining := by
  fun_induction faultFrom? site tokens depth with
  | case1 | case5 | case7 => cases h
  | case2 depth hone =>
      cases h
      have hdepth : 1 ≤ remaining := hsome.resolve_left (· rfl)
      exact ⟨rfl, rfl, Nat.lt_of_le_of_ne hdepth (Ne.symm hone)⟩
  | case8 text rest depth reason located => cases reason <;> cases h
  | case3 _ _ _ ih | case4 _ _ _ ih | case6 _ _ _ ih | case9 _ _ _ _ _ ih =>
      exact ih (Or.inr (Nat.le_add_left 1 _)) h

namespace Sheet

variable {sheet : Sheet} {cell : Address} {fault : Fault} {run : Run sheet}

/-- A fault is that of a reference to no cell, of a circle, or of a formula by itself. -/
theorem compute_error_cases (hfailed : (sheet.compute cell run).1 = .error fault) :
    ¬sheet.Holds cell ∧ fault = .outside cell cell.name sheet.rows sheet.cols ∨
      (∃ circle, fault = .circular circle) ∨
      ∃ source, ∃ inside : sheet.Holds source, (sheet.site source inside).fault? = some fault := by
  induction cell, run using compute_induction generalizing fault with
  | hstep cell run ih =>
      rcases sheet.compute_cases cell run with
        houtside | ⟨inside, ⟨known, hknown⟩ | hguarded | hopen⟩
      · rw [compute_of_not_holds houtside] at hfailed
        cases hfailed
        exact Or.inl ⟨houtside, rfl⟩
      · rw [compute_of_done inside hknown] at hfailed
        cases hfailed
      · rw [compute_of_guarded inside hguarded] at hfailed
        cases hfailed
        exact Or.inr (Or.inl ⟨_, rfl⟩)
      · right
        rw [compute_answer_of_open hopen] at hfailed
        refine ((sheet.site cell inside).evaluate_keeps
          (I := fun _ later => (run.enter (sheet.index cell inside) cell).Leads later)
          (E := fun fault _ => (∃ circle, fault = .circular circle) ∨
            ∃ source, ∃ inside : sheet.Holds source,
              (sheet.site source inside).fault? = some fault)
          ?lookup ?own (.refl _)).2 fault hfailed
        case own => exact fun _ reason _ hown _ => Or.inr ⟨cell, inside, hown⟩
        case lookup =>
          intro before text after target later hsplit hlocated hleads
          have hfollows := hleads.trans (later.leads_follow (sheet.index cell inside) text)
          refine ⟨fun _ _ => hfollows.trans (sheet.leads_compute target _), ?_⟩
          intro reason hreason
          rcases ih inside hopen target text later hleads hreason with
            ⟨houtside, -⟩ | hother
          · exact absurd (refers_of_split inside hsplit hlocated).holds houtside
          · exact hother

theorem tokens_ne_nil {formula : Formula} (h : sheet.formula? cell = some formula) :
    formula.tokens ≠ [] := by
  obtain ⟨place, -, rfl⟩ := Option.map_eq_some_iff.1 h
  exact Formula.tokens_ne_nil (sheet.not_blank _ (Vector.getElem_mem place.isLt))

/-- Left-over values that an evaluation reports are those of one formula, and more than one. -/
theorem leftover_of_compute {source : Address} {text : String} {remaining : Nat}
    (hfailed : (sheet.compute cell run).1 = .error (.leftover source text remaining)) :
    2 ≤ remaining ∧ sheet.formula? source = some ⟨text⟩ := by
  rcases compute_error_cases hfailed with ⟨-, hother⟩ | ⟨circle, hother⟩ | ⟨origin, inside, hown⟩
  · cases hother
  · cases hother
  · have hformula := formula?_eq_some inside
    obtain ⟨rfl, rfl, hmore⟩ :=
      Site.leftover_of_faultFrom? (Or.inl (tokens_ne_nil hformula)) hown
    exact ⟨hmore, hformula⟩

/-- All formulas of a sheet have tokens, and all characters but separators are in them, blank
ones too.  Whatever has been calculated before, and on top of whatever trail a cell is
evaluated, the values left over that are reported are two or more, and the text is that of the
formula of the cell that is named. -/
theorem leftover_remaining (sheet : Sheet) :
    (∀ cell formula, sheet.formula? cell = some formula → formula.tokens ≠ [] ∧
      ∀ c ∈ formula.text.toList, isSeparator c = false →
        ∃ word ∈ words isSeparator formula.text, c ∈ word.toList) ∧
    (∀ c, isSeparator c = true → isBlank c = true) ∧
    (∀ c ∈ ['\x0b', '\u00a0'], isBlank c = true ∧ isSeparator c = false) ∧
    ∀ progress source text remaining,
      (∃ cell trail,
        (sheet.compute cell ⟨progress, trail⟩).1 = .error (.leftover source text remaining)) ∨
      (sheet.computeAll progress).1 = .error (.leftover source text remaining) →
      2 ≤ remaining ∧ sheet.formula? source = some ⟨text⟩ := by
  refine ⟨?_, fun c => isBlank_of_isSeparator, ?_, ?_⟩
  · intro cell formula hformula
    exact ⟨tokens_ne_nil hformula, fun c hc hkept => exists_mem_words hc hkept⟩
  · intro c hc
    simp only [List.mem_cons, List.not_mem_nil, or_false] at hc
    rcases hc with rfl | rfl <;> decide
  · rintro progress source text remaining (⟨cell, trail, hfailed⟩ | hfailed)
    · exact leftover_of_compute hfailed
    · obtain ⟨before, cell, after, run, -, -, hcell, -⟩ :=
        computeEach_eq_error (Prod.ext hfailed rfl)
      exact leftover_of_compute (congrArg Prod.fst hcell)

namespace LeftoversWitness

/-- The second formula leaves two values, and the third is one token. -/
def row : Sheet :=
  .ofFormulas 1 3 #v[⟨"A2 ++"⟩, ⟨"\t1 2 3 +"⟩, ⟨"\u00a0\x0b7"⟩] (by decide)

/-- The first cell fails again after a calculation, and still it is the second that is named. -/
theorem leftover_remaining_row :
    (row.compute ⟨0, 0⟩ ⟨row.afterAll [.all], Trail.empty.push ⟨7, 7⟩⟩).1 =
        .error (.leftover ⟨0, 1⟩ "\t1 2 3 +" 2) ∧
      row.formula? ⟨0, 1⟩ = some ⟨"\t1 2 3 +"⟩ ∧
      ∃ word ∈ words isSeparator "\u00a0\x0b7", '\x0b' ∈ word.toList := by
  have hfailed : (row.compute ⟨0, 0⟩ ⟨row.afterAll [.all], Trail.empty.push ⟨7, 7⟩⟩).1 =
      .error (.leftover ⟨0, 1⟩ "\t1 2 3 +" 2) := by decide +kernel
  obtain ⟨htokens, -, -, hleftover⟩ := leftover_remaining row
  refine ⟨hfailed, (hleftover _ _ _ _ (Or.inl ⟨_, _, hfailed⟩)).2, ?_⟩
  exact (htokens ⟨0, 2⟩ _ rfl).2 '\x0b' (by decide) (by decide)

end LeftoversWitness

end Sheet

end PostfixSheet
