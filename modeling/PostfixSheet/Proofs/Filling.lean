/-
Writing where there is not room for everything.

The text of a complete calculation is ASCII, so that a character is a byte.  A sink takes its
bytes from the front, up to the number that fit, wherever among the pieces that may be; there
is no problem exactly if this is all of them.
-/
import PostfixSheet.Proofs.Lifecycle
import PostfixSheet.Proofs.Rereading

namespace PostfixSheet

open Text

namespace Text

/-- The bytes of ASCII characters are the characters themselves. -/
theorem encode_of_ascii {text : String} (h : ∀ c ∈ text.toList, c.toNat < 128) :
    encode text = text.toList.map fun c => c.toNat.toUInt8 := by
  rw [encode_eq_flatMap]
  generalize text.toList = cs at h
  induction cs with
  | nil => rfl
  | cons c cs ih =>
      have hlow : c.val ≤ 127 := Nat.le_of_lt_succ (h c List.mem_cons_self)
      have hbyte : String.utf8EncodeChar c = [c.toNat.toUInt8] :=
        String.utf8EncodeChar_eq_singleton (Char.utf8Size_eq_one_iff.2 hlow)
      have hrest := ih fun other hother => h other (List.mem_cons_of_mem c hother)
      rw [List.flatMap_cons, hbyte, hrest, List.map_cons, List.singleton_append]

theorem length_encode_of_ascii {text : String} (h : ∀ c ∈ text.toList, c.toNat < 128) :
    (encode text).length = text.length := by
  rw [encode_of_ascii h, List.length_map, String.length_toList]

theorem encode_take_of_ascii {text : String} (h : ∀ c ∈ text.toList, c.toNat < 128)
    (count : Nat) :
    encode (String.ofList (text.toList.take count)) = (encode text).take count := by
  have hfront : ∀ c ∈ (String.ofList (text.toList.take count)).toList, c.toNat < 128 := by
    intro c hc
    rw [String.toList_ofList] at hc
    exact h c (List.mem_of_mem_take hc)
  rw [encode_of_ascii hfront, encode_of_ascii h, String.toList_ofList, List.map_take]

theorem mem_toList_unlines {texts : List String} {c : Char}
    (hc : c ∈ (unlines texts).toList) : c = '\n' ∨ ∃ text ∈ texts, c ∈ text.toList := by
  induction texts with
  | nil => simp [unlines] at hc
  | cons text texts ih =>
      have hcons : (unlines (text :: texts)).toList =
          text.toList ++ '\n' :: (unlines texts).toList := by
        simp [unlines]
      rw [hcons, List.mem_append, List.mem_cons] at hc
      rcases hc with hfirst | hend | hrest
      · exact Or.inr ⟨text, List.mem_cons_self, hfirst⟩
      · exact Or.inl hend
      · rcases ih hrest with hend | ⟨other, hother, hmem⟩
        · exact Or.inl hend
        · exact Or.inr ⟨other, List.mem_cons_of_mem text hother, hmem⟩

end Text

/-- A sink with room for so many bytes takes as much of an ASCII text from the front. -/
theorem Sink.put_bounded {text : String} (h : ∀ c ∈ text.toList, c.toNat < 128) (room : Nat) :
    ∃ received, (Sink.bounded room).put text =
        (if (encode text).length ≤ room then .ok () else .error (.io .full),
          ⟨some (room - (encode text).length), received⟩) ∧
      encode received = (encode text).take room := by
  refine ⟨String.ofList (text.toList.take room), ?_, encode_take_of_ascii h room⟩
  rw [length_encode_of_ascii h]
  by_cases hfits : text.length ≤ room
  · have hall : text.toList.take room = text.toList :=
      List.take_of_length_le (by rwa [String.length_toList])
    simp [bounded, put, hfits, hall]
  · have hnone : room - text.length = 0 := by omega
    simp [bounded, put, hfits, hnone]

namespace Results

variable {sheet : Sheet} {progress : Progress sheet.size} {places : Nat} {text : String}

/-- A text shows the values of all cells: a header, and then a line for each value, row by
row. -/
inductive Displays (sheet : Sheet) (progress : Progress sheet.size) (places : Nat) :
    String → Prop
  | intro {values : Fin sheet.size → Float} {lines : Fin sheet.size → String} :
      (∀ place, progress.mark place = .done (values place)) →
      (∀ place, Decimal.fixed? places (values place) = some (lines place)) →
      Displays sheet progress places (unlines (header sheet :: List.ofFn lines))

theorem exists_displays (hcomplete : progress.Complete) (hplaces : places ≤ Decimal.maxPlaces) :
    ∃ text, Displays sheet progress places text := by
  obtain ⟨values, lines, hvalues, hlines⟩ := exists_lines hcomplete hplaces
  exact ⟨_, .intro hvalues hlines⟩

theorem Displays.write_eq_put (h : Displays sheet progress places text) (sink : Sink) :
    write sheet progress places sink = sink.put text := by
  cases h with
  | intro hvalues hlines => exact Results.write_eq_put hvalues hlines sink

theorem Displays.ascii (h : Displays sheet progress places text) :
    ∀ c ∈ text.toList, c.toNat < 128 := by
  cases h with
  | intro _ hlines =>
      intro c hc
      rcases mem_toList_unlines hc with rfl | ⟨line, hline, hmem⟩
      · decide
      · rcases shows_or_eq_of_mem_line hlines hline hmem with ⟨-, hlast⟩ | rfl
        · exact Nat.lt_of_le_of_lt hlast (by decide)
        · decide

end Results

namespace Document

/-- While a value is missing, nothing is written.  Otherwise there is a text that shows the
values, and of its bytes the first ones are written, as many as there is room for; that there
is no room left for others is the only problem.  The document stays as it is. -/
theorem write_bounded (document : Document) {places : Nat}
    (hplaces : places ≤ Decimal.maxPlaces) (room : Nat) :
    (¬document.progress.Complete →
      document.write places (.bounded room) = (.error .notCalculated, .bounded room)) ∧
    (document.progress.Complete →
      ∃ text, Results.Displays document.sheet document.progress places text) ∧
    (∀ text, Results.Displays document.sheet document.progress places text →
      ∃ received, document.write places (.bounded room) =
          (if (encode text).length ≤ room then .ok () else .error (.io .full),
            ⟨some (room - (encode text).length), received⟩) ∧
        encode received = (encode text).take (min room (encode text).length)) ∧
    document.after (.write places (.bounded room)) = document := by
  refine ⟨?_, ?_, ?_, rfl⟩
  · intro hmissing
    exact Results.write_of_not_complete hmissing places (.bounded room)
  · intro hcomplete
    exact Results.exists_displays hcomplete hplaces
  · intro text hdisplays
    obtain ⟨received, hput, hfront⟩ := Sink.put_bounded hdisplays.ascii room
    refine ⟨received, ?_, ?_⟩
    · exact (hdisplays.write_eq_put (.bounded room)).trans hput
    · rw [hfront, List.take_eq_take_min]

namespace FillingWitness

def row : Sheet :=
  .ofFormulas 1 2 #v[⟨"1 3 /"⟩, ⟨"A1 9 *"⟩] (by decide)

def calculated : Document :=
  ⟨row, (row.computeAll (.fresh _)).2, none, true⟩

/-- Thirteen bytes are all but the last line feed. -/
theorem write_bounded_row :
    calculated.progress.Complete ∧ 2 ≤ Decimal.maxPlaces ∧
      Results.Displays calculated.sheet calculated.progress 2 "2 1\n0.33\n3.00\n" ∧
      calculated.write 2 (.bounded 13) =
        (.error (.io .full), ⟨some 0, "2 1\n0.33\n3.00"⟩) ∧
      (calculated.write 2 (.bounded 14)).1 = .ok () := by
  have hok : (row.computeAll (.fresh _)).1 = .ok () := by decide +kernel
  have hcomplete : calculated.progress.Complete := Sheet.complete_of_computeAll_eq_ok hok
  have hplaces : 2 ≤ Decimal.maxPlaces := by decide
  obtain ⟨-, hexists, hshort, -⟩ := calculated.write_bounded hplaces 13
  obtain ⟨-, -, hlong, -⟩ := calculated.write_bounded hplaces 14
  obtain ⟨text, hdisplays⟩ := hexists hcomplete
  have hwhole : calculated.write 2 .unbounded =
      (.ok (), ⟨none, "2 1\n0.33\n3.00\n"⟩) := by decide +kernel
  have hput : calculated.write 2 .unbounded = Sink.unbounded.put text :=
    hdisplays.write_eq_put .unbounded
  obtain rfl : "2 1\n0.33\n3.00\n" = text := by
    simpa [Sink.unbounded, Sink.put] using hwhole.symm.trans hput
  obtain ⟨received, hwritten, hreceived⟩ := hshort _ hdisplays
  obtain ⟨all, hall, -⟩ := hlong _ hdisplays
  obtain rfl : "2 1\n0.33\n3.00" = received := encode_inj.1 (by rw [hreceived]; decide)
  refine ⟨hcomplete, hplaces, hdisplays, hwritten, ?_⟩
  rw [hall]
  rfl

end FillingWitness

end Document

end PostfixSheet
