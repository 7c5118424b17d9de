/-
Bytes and the lines in them.

`LinesOf` says which lines bytes are made up of, from the line ends that stand in the
bytes.  There is one way only to take bytes apart, and `lines` finds it.
-/
import PostfixSheet.Text.Lines

namespace PostfixSheet.Text

variable {line rest : List UInt8} {text : String}

/-- Bytes are these lines.  A line stands before a line feed, or before a carriage return
and a line feed; the last one may stand at the end of the bytes if there is anything in
it. -/
inductive LinesOf : List UInt8 → List (List UInt8) → Prop
  | none : LinesOf [] []
  | unended {line : List UInt8} : line ≠ [] → lineFeed ∉ line → LinesOf line [line]
  | feed {line rest : List UInt8} {others : List (List UInt8)} : lineFeed ∉ line →
      line.getLast? ≠ some carriageReturn → LinesOf rest others →
      LinesOf (line ++ lineFeed :: rest) (line :: others)
  | returnFeed {line rest : List UInt8} {others : List (List UInt8)} : lineFeed ∉ line →
      LinesOf rest others →
      LinesOf (line ++ carriageReturn :: lineFeed :: rest) (line :: others)

theorem dropReturn_of_ne (h : line.getLast? ≠ some carriageReturn) :
    dropReturn line = line :=
  if_neg h

theorem dropReturn_concat (line : List UInt8) :
    dropReturn (line ++ [carriageReturn]) = line := by
  simp [dropReturn]

theorem splitOn_of_not_mem (h : lineFeed ∉ line) : line.splitOn lineFeed = [line] := by
  apply List.splitOnP_eq_singleton
  intro byte hbyte
  exact beq_false_of_ne fun hsame => h (hsame ▸ hbyte)

theorem lines_nil : lines [] = [] := by
  simp [lines, List.splitOn]

theorem lines_of_not_mem (hne : line ≠ []) (h : lineFeed ∉ line) : lines line = [line] := by
  simp [lines, splitOn_of_not_mem h, hne]

theorem lines_append_cons (h : lineFeed ∉ line) (rest : List UInt8) :
    lines (line ++ lineFeed :: rest) = dropReturn line :: lines rest := by
  have hsplit : (line ++ lineFeed :: rest).splitOn lineFeed =
      line :: rest.splitOn lineFeed := by
    have hpieces : (line ++ lineFeed :: rest).splitOn lineFeed =
        line.splitOn lineFeed ++ rest.splitOn lineFeed :=
      List.splitOnP_append_cons line rest (beq_self_eq_true lineFeed)
    rw [hpieces, splitOn_of_not_mem h, List.singleton_append]
  have hne : rest.splitOn lineFeed ≠ [] := List.splitOnP_ne_nil _ _
  simp only [lines, hsplit, List.dropLast_cons_of_ne_nil hne, List.getLast?_cons_of_ne_nil hne,
    List.map_cons, List.cons_append]

theorem linesOf_lines (bytes : List UInt8) : LinesOf bytes (lines bytes) := by
  induction hlength : bytes.length using Nat.strongRecOn generalizing bytes with
  | ind length ih =>
      by_cases hmem : lineFeed ∈ bytes
      · obtain ⟨line, rest, rfl, hnot⟩ := List.eq_append_cons_of_mem hmem
        have hrest : LinesOf rest (lines rest) :=
          ih rest.length (by simp [← hlength]; omega) rest rfl
        rw [lines_append_cons hnot]
        by_cases hreturn : line.getLast? = some carriageReturn
        · obtain ⟨start, rfl⟩ := List.getLast?_eq_some_iff.1 hreturn
          rw [dropReturn_concat, List.append_assoc]
          exact .returnFeed (fun h => hnot (List.mem_append_left _ h)) hrest
        · rw [dropReturn_of_ne hreturn]
          exact .feed hnot hreturn hrest
      · by_cases hempty : bytes = []
        · subst hempty
          exact lines_nil ▸ .none
        · rw [lines_of_not_mem hempty hmem]
          exact .unended hempty hmem

/-- Bytes are taken apart into the lines that they are made up of, and into no others. -/
theorem lines_eq_iff {bytes : List UInt8} {found : List (List UInt8)} :
    lines bytes = found ↔ LinesOf bytes found := by
  constructor
  · rintro rfl
    exact linesOf_lines bytes
  · intro h
    induction h with
    | none => exact lines_nil
    | unended hne hnot => exact lines_of_not_mem hne hnot
    | feed hnot hreturn _ ih => rw [lines_append_cons hnot, dropReturn_of_ne hreturn, ih]
    | @returnFeed line rest others hnot _ ih =>
        have hnot' : lineFeed ∉ line ++ [carriageReturn] := by
          simpa [lineFeed, carriageReturn] using hnot
        have hlines := lines_append_cons hnot' rest
        rwa [dropReturn_concat, ih, List.append_assoc] at hlines

/-- A line has a text exactly if it is the bytes of that text. -/
theorem decode?_eq_some_iff : decode? line = some text ↔ encode text = line := by
  constructor
  · intro h
    unfold decode? String.fromUTF8? at h
    split at h
    · cases h
      rfl
    · cases h
  · rintro rfl
    have hvalid : (⟨(encode text).toArray⟩ : ByteArray).IsValidUTF8 := text.isValidUTF8
    rw [decode?, String.fromUTF8?, dif_pos hvalid]
    rfl

theorem decode?_encode (text : String) : decode? (encode text) = some text :=
  decode?_eq_some_iff.2 rfl

theorem encode_inj {left right : String} : encode left = encode right ↔ left = right := by
  rw [← decode?_eq_some_iff, decode?_encode, Option.some.injEq, eq_comm]

@[simp] theorem encode_append (left right : String) :
    encode (left ++ right) = encode left ++ encode right := by
  simp [encode]

theorem encode_eq_flatMap (text : String) :
    encode text = text.toList.flatMap String.utf8EncodeChar := by
  rw [encode, String.toUTF8, ← String.utf8Encode_toList, List.utf8Encode,
    List.toList_data_toByteArray]

/-- Only the ASCII characters have bytes below 128, and they are their own bytes. -/
theorem eq_of_mem_utf8EncodeChar {c : Char} {byte : UInt8} (h : byte ∈ String.utf8EncodeChar c)
    (hbyte : byte.toNat < 128) : c.toNat = byte.toNat := by
  unfold String.utf8EncodeChar at h
  have hvalue : c.val.toNat = c.toNat := rfl
  dsimp only at h
  split at h
  · obtain rfl := List.mem_singleton.1 h
    simp only [UInt8.toNat_ofNat', hvalue] at *
    omega
  · split at h
    · simp only [List.mem_cons, List.not_mem_nil, or_false] at h
      rcases h with rfl | rfl <;> simp only [UInt8.toNat_ofNat'] at hbyte <;> omega
    · split at h
      · simp only [List.mem_cons, List.not_mem_nil, or_false] at h
        rcases h with rfl | rfl | rfl <;> simp only [UInt8.toNat_ofNat'] at hbyte <;> omega
      · simp only [List.mem_cons, List.not_mem_nil, or_false] at h
        rcases h with rfl | rfl | rfl | rfl <;> simp only [UInt8.toNat_ofNat'] at hbyte <;> omega

theorem not_mem_encode {c : Char} {byte : UInt8} (hbyte : byte.toNat < 128)
    (hsame : c.toNat = byte.toNat) (h : c ∉ text.toList) : byte ∉ encode text := by
  intro hmem
  rw [encode_eq_flatMap, List.mem_flatMap] at hmem
  obtain ⟨other, hother, hbytes⟩ := hmem
  have hnat := eq_of_mem_utf8EncodeChar hbytes hbyte
  exact h (Char.toNat_inj.1 (hsame.trans hnat.symm) ▸ hother)

def unlines (texts : List String) : String :=
  String.join (texts.map (· ++ "\n"))

/-- Texts without line ends in them are the lines of the text with them on its lines. -/
theorem linesOf_encode_unlines {texts : List String}
    (h : ∀ text ∈ texts, '\n' ∉ text.toList ∧ '\r' ∉ text.toList) :
    LinesOf (encode (unlines texts)) (texts.map encode) := by
  induction texts with
  | nil => exact .none
  | cons text texts ih =>
      obtain ⟨hfeed, hreturn⟩ := h text List.mem_cons_self
      have hlines : encode (unlines (text :: texts)) =
          encode text ++ lineFeed :: encode (unlines texts) := by
        have hend : encode "\n" = [lineFeed] := by decide
        simp [unlines, hend]
      rw [hlines]
      refine .feed (not_mem_encode (by decide) (by decide) hfeed) ?_
        (ih fun other hother => h other (List.mem_cons_of_mem text hother))
      intro hlast
      have hascii : carriageReturn.toNat < 128 := by decide
      exact not_mem_encode hascii (by decide) hreturn (List.mem_of_getLast? hlast)

end PostfixSheet.Text
