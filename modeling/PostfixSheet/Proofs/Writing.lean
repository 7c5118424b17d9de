/-
Writing the values of a sheet.

Nothing is written while a value is missing.  When all values are there, a sink without
end takes a header and one line for each value.
-/
import PostfixSheet.Proofs.Failure
import PostfixSheet.Proofs.FixedText
import PostfixSheet.Proofs.Lines
import PostfixSheet.Results

namespace PostfixSheet

open Text

/-- A piece may be cut in two: the second half is handed over if the first one fits. -/
theorem Sink.put_append (sink : Sink) (left right : String) :
    sink.put (left ++ right) =
      match sink.put left with
      | (.ok (), later) => later.put right
      | (.error problem, later) => (.error problem, later) := by
  obtain ⟨_ | room, received⟩ := sink
  · simp [put, String.append_assoc]
  · by_cases hleft : left.length ≤ room
    · by_cases hright : right.length ≤ room - left.length
      · have hboth : left.length + right.length ≤ room := by omega
        simp [put, hleft, hright, hboth, String.append_assoc, Nat.sub_add_eq]
      · have hboth : ¬left.length + right.length ≤ room := by omega
        have hall : left.toList.take room = left.toList :=
          List.take_of_length_le (by rwa [String.length_toList])
        simp [put, hleft, hright, hboth, String.append_assoc, List.take_append, hall,
          String.length_toList]
    · have hboth : ¬left.length + right.length ≤ room := by omega
      have hnone : room - left.length = 0 := by omega
      simp [put, hleft, hboth, List.take_append, hnone, String.length_toList]

/-- Pieces are handed over as their text as a whole would be. -/
theorem Sink.putAll_ok (pieces : List String) (sink : Sink) :
    Sink.putAll (pieces.map .ok) sink = sink.put (String.join pieces) := by
  induction pieces generalizing sink with
  | nil => obtain ⟨_ | room, received⟩ := sink <;> simp [putAll, put]
  | cons piece pieces ih =>
      rw [List.map_cons, putAll, String.join_cons, put_append]
      rcases sink.put piece with ⟨problem | ⟨⟩, later⟩
      · rfl
      · exact ih later

/-- What is wrong with no piece is never reported, unless it is that the sink is full. -/
theorem Sink.putAll_ne_error {pieces : List (Except Problem String)} {problem : Problem}
    (hpieces : ∀ piece ∈ pieces, piece ≠ .error problem) (hfull : problem ≠ .io .full)
    (sink : Sink) : (Sink.putAll pieces sink).1 ≠ .error problem := by
  induction pieces generalizing sink with
  | nil => simp [putAll]
  | cons piece pieces ih =>
      have hrest := ih fun other hother => hpieces other (List.mem_cons_of_mem piece hother)
      cases piece with
      | error other =>
          rw [putAll]
          simpa using hpieces _ List.mem_cons_self
      | ok text =>
          rw [putAll]
          obtain ⟨_ | room, received⟩ := sink
          · exact hrest _
          · by_cases hfits : text.length ≤ room
            · simpa [put, hfits] using hrest _
            · simpa [put, hfits] using hfull.symm

theorem Progress.values?_eq_none_iff {size : Nat} {progress : Progress size} :
    progress.values? = none ↔ ¬progress.Complete := by
  constructor
  · intro hnone hcomplete
    choose values hvalues using fun place => Mark.isDone_iff.1 (hcomplete place)
    rw [values?_eq_some hvalues] at hnone
    cases hnone
  · intro hmissing
    obtain ⟨place, hplace⟩ := not_forall.1 hmissing
    exact values?_eq_none (Bool.eq_false_iff.2 hplace)

theorem Sheet.complete_of_computeAll_eq {sheet : Sheet} {progress later : Progress sheet.size}
    (h : sheet.computeAll progress = (.ok (), later)) : later.Complete := by
  have hcomplete := complete_of_computeAll_eq_ok (congrArg Prod.fst h)
  rwa [h] at hcomplete

namespace Results

variable {sheet : Sheet} {progress : Progress sheet.size} {places : Nat}

def header (sheet : Sheet) : String :=
  toString sheet.cols ++ " " ++ toString sheet.rows

theorem headerLine_eq (sheet : Sheet) : headerLine sheet = header sheet ++ "\n" := by
  simp only [headerLine, header, String.append_assoc]
  rfl

theorem write_of_not_complete (h : ¬progress.Complete) (places : Nat) (sink : Sink) :
    write sheet progress places sink = (.error .notCalculated, sink) := by
  rw [write, Progress.values?_eq_none_iff.2 h]

/-- Writing reports that there are values missing exactly if there are. -/
theorem write_eq_notCalculated_iff (sink : Sink) :
    (write sheet progress places sink).1 = .error .notCalculated ↔ ¬progress.Complete := by
  constructor
  · intro hmissing hcomplete
    rw [write] at hmissing
    split at hmissing
    · rename_i hnone
      exact Progress.values?_eq_none_iff.1 hnone hcomplete
    · refine Sink.putAll_ne_error ?_ (by simp) sink hmissing
      intro piece hpiece
      rcases List.mem_cons.1 hpiece with rfl | hvalue
      · simp
      · obtain ⟨value, -, rfl⟩ := List.mem_map.1 hvalue
        unfold valueLine
        split <;> simp
  · intro hmissing
    rw [write_of_not_complete hmissing]

theorem write_eq_put {values : Fin sheet.size → Float} {lines : Fin sheet.size → String}
    (hvalues : ∀ place, progress.mark place = .done (values place))
    (hlines : ∀ place, Decimal.fixed? places (values place) = some (lines place)) (sink : Sink) :
    write sheet progress places sink = sink.put (unlines (header sheet :: List.ofFn lines)) := by
  have hpieces : Except.ok (headerLine sheet) :: (List.ofFn values).map (valueLine places) =
      ((header sheet :: List.ofFn lines).map (· ++ "\n")).map .ok := by
    have hline : ∀ place, valueLine places (values place) = .ok (lines place ++ "\n") := by
      intro place
      rw [valueLine, hlines]
    rw [headerLine_eq, List.map_ofFn, List.map_cons, List.map_cons, List.map_ofFn, List.map_ofFn]
    congr 2
    funext place
    exact hline place
  rw [write, Progress.values?_eq_some hvalues]
  dsimp only
  rw [hpieces, unlines, Sink.putAll_ok]

theorem write_of_values {values : Fin sheet.size → Float} {lines : Fin sheet.size → String}
    (hvalues : ∀ place, progress.mark place = .done (values place))
    (hlines : ∀ place, Decimal.fixed? places (values place) = some (lines place)) :
    write sheet progress places .unbounded =
      (.ok (), ⟨none, unlines (header sheet :: List.ofFn lines)⟩) := by
  simp [write_eq_put hvalues hlines, Sink.unbounded, Sink.put]

theorem exists_lines (hcomplete : progress.Complete) (hplaces : places ≤ Decimal.maxPlaces) :
    ∃ (values : Fin sheet.size → Float) (lines : Fin sheet.size → String),
      (∀ place, progress.mark place = .done (values place)) ∧
      ∀ place, Decimal.fixed? places (values place) = some (lines place) := by
  choose values hvalues using fun place => Mark.isDone_iff.1 (hcomplete place)
  choose lines hlines using fun place => Decimal.exists_fixed?_eq_some hplaces (values place)
  exact ⟨values, lines, hvalues, hlines⟩

theorem exists_write_eq_ok (hcomplete : progress.Complete) (hplaces : places ≤ Decimal.maxPlaces) :
    ∃ text, write sheet progress places .unbounded = (.ok (), ⟨none, text⟩) := by
  obtain ⟨values, lines, hvalues, hlines⟩ := exists_lines hcomplete hplaces
  exact ⟨_, write_of_values hvalues hlines⟩

end Results

end PostfixSheet
