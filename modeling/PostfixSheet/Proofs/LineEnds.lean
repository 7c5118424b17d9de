/-
Line ends of both kinds.

A line feed ends a line, with a carriage return before it or without, and the last line of a
text need not be ended at all.  Bytes that differ in nothing else have the same lines, so
they are read as the same sheet or refused with the same problem.
-/
import Mathlib.Data.List.Basic
import PostfixSheet.Proofs.Layout
import PostfixSheet.Proofs.Lines
import PostfixSheet.SheetText

namespace PostfixSheet

namespace Text

variable {line rest bytes image : List UInt8} {found : List (List UInt8)}

/-- The image is these bytes with a carriage return put before some of the line feeds. -/
inductive AddsReturns : List UInt8 → List UInt8 → Prop
  | nil : AddsReturns [] []
  | keep (byte : UInt8) {rest image : List UInt8} : AddsReturns rest image →
      AddsReturns (byte :: rest) (byte :: image)
  | add {rest image : List UInt8} : AddsReturns rest image →
      AddsReturns (lineFeed :: rest) (carriageReturn :: lineFeed :: image)

/-- Returns may be added after any bytes that stay as they are. -/
theorem AddsReturns.append (h : AddsReturns rest image) (line : List UInt8) :
    AddsReturns (line ++ rest) (line ++ image) := by
  induction line with
  | nil => exact h
  | cons byte line ih => exact .keep byte ih

theorem AddsReturns.eq_of_not_mem (h : AddsReturns bytes image) (hnot : lineFeed ∉ bytes) :
    image = bytes := by
  induction h with
  | nil => rfl
  | keep byte _ ih =>
      have hrest := ih fun hmem => hnot (List.mem_cons_of_mem byte hmem)
      rw [hrest]
  | add _ _ => exact absurd List.mem_cons_self hnot

/-- A line stays as it is, and the line feed after it may have got a carriage return. -/
theorem AddsReturns.exists_rest (h : AddsReturns (line ++ lineFeed :: rest) image)
    (hnot : lineFeed ∉ line) :
    ∃ later, AddsReturns rest later ∧
      (image = line ++ lineFeed :: later ∨
        image = line ++ carriageReturn :: lineFeed :: later) := by
  induction line generalizing image with
  | nil =>
      cases h with
      | keep _ hrest => exact ⟨_, hrest, Or.inl rfl⟩
      | add hrest => exact ⟨_, hrest, Or.inr rfl⟩
  | cons byte line ih =>
      cases h with
      | keep _ hrest =>
          obtain ⟨later, hlater, himage⟩ :=
            ih hrest fun hmem => hnot (List.mem_cons_of_mem byte hmem)
          exact ⟨later, hlater, himage.imp (congrArg _) (congrArg _)⟩
      | add _ => exact absurd List.mem_cons_self hnot

/-- Where no line feed has a carriage return, adding some changes no line. -/
theorem LinesOf.of_addsReturns (h : LinesOf bytes found)
    (hclean : ¬[carriageReturn, lineFeed] <:+: bytes) (hadds : AddsReturns bytes image) :
    LinesOf image found := by
  induction h generalizing image with
  | none =>
      cases hadds
      exact .none
  | unended hne hnot =>
      rw [hadds.eq_of_not_mem hnot]
      exact .unended hne hnot
  | @feed line rest others hnot hreturn _ ih =>
      have hrest : ¬[carriageReturn, lineFeed] <:+: rest := fun hinside =>
        hclean (hinside.trans ⟨line ++ [lineFeed], [], by simp⟩)
      obtain ⟨later, hlater, rfl | rfl⟩ := hadds.exists_rest hnot
      · exact .feed hnot hreturn (ih hrest hlater)
      · exact .returnFeed hnot (ih hrest hlater)
  | @returnFeed line rest others _ _ _ => exact absurd ⟨line, rest, by simp⟩ hclean

/-- A last line that is not ended may as well be ended, in one way or the other. -/
theorem LinesOf.append_lineFeed (h : LinesOf bytes found) (hne : bytes ≠ [])
    (hfeed : bytes.getLast? ≠ some lineFeed) (hreturn : bytes.getLast? ≠ some carriageReturn) :
    LinesOf (bytes ++ [lineFeed]) found ∧
      LinesOf (bytes ++ [carriageReturn, lineFeed]) found := by
  induction h with
  | none => exact absurd rfl hne
  | unended _ hnot => exact ⟨.feed hnot hreturn .none, .returnFeed hnot .none⟩
  | @feed line rest others hnot hlast _ ih =>
      have hrest : rest ≠ [] := by
        rintro rfl
        exact hfeed List.getLast?_concat
      rw [List.append_cons, List.getLast?_append_of_ne_nil _ hrest] at hfeed hreturn
      obtain ⟨hshort, hlong⟩ := ih hrest hfeed hreturn
      rw [List.append_assoc, List.append_assoc]
      exact ⟨.feed hnot hlast hshort, .feed hnot hlast hlong⟩
  | @returnFeed line rest others hnot _ ih =>
      have hrest : rest ≠ [] := by
        rintro rfl
        apply hfeed
        simp
      rw [List.append_cons, List.append_cons, List.getLast?_append_of_ne_nil _ hrest]
        at hfeed hreturn
      obtain ⟨hshort, hlong⟩ := ih hrest hfeed hreturn
      rw [List.append_assoc, List.append_assoc]
      exact ⟨.returnFeed hnot hshort, .returnFeed hnot hlong⟩

end Text

namespace SheetText

open Text

/-- Carriage returns before line feeds do not matter, whichever line feeds have them, and
neither does it matter whether the last line is ended: the sheet that is read is the same,
and so is the problem if there is one. -/
theorem read_line_ends (bytes : List UInt8) :
    (¬[carriageReturn, lineFeed] <:+: bytes →
      ∀ image, AddsReturns bytes image → read image = read bytes) ∧
    (bytes ≠ [] → bytes.getLast? ≠ some lineFeed → bytes.getLast? ≠ some carriageReturn →
      read (bytes ++ [lineFeed]) = read bytes ∧
        read (bytes ++ [carriageReturn, lineFeed]) = read bytes) := by
  have hlines := linesOf_lines bytes
  have hread : ∀ {image}, LinesOf image (lines bytes) → read image = read bytes := by
    intro image himage
    rw [read, lines_eq_iff.2 himage, read]
  constructor
  · intro hclean image hadds
    exact hread (hlines.of_addsReturns hclean hadds)
  · intro hne hfeed hreturn
    obtain ⟨hshort, hlong⟩ := hlines.append_lineFeed hne hfeed hreturn
    exact ⟨hread hshort, hread hlong⟩

namespace LineEndsWitness

/-- A carriage return stands inside a formula, where it ends no line. -/
def bytes : List UInt8 :=
  encode "1 3" ++ lineFeed :: (encode "A1\r1 -" ++ lineFeed ::
    (encode "7" ++ lineFeed :: encode "8"))

/-- The first and the last of the line feeds have a carriage return. -/
def mixed : List UInt8 :=
  encode "1 3" ++ carriageReturn :: lineFeed :: (encode "A1\r1 -" ++ lineFeed ::
    (encode "7" ++ carriageReturn :: lineFeed :: encode "8"))

def column : Sheet :=
  Sheet.ofFormulas 3 1 #v[⟨"A1\r1 -"⟩, ⟨"7"⟩, ⟨"8"⟩] (by decide)

theorem read_line_ends_mixed :
    ¬[carriageReturn, lineFeed] <:+: bytes ∧ AddsReturns bytes mixed ∧
      bytes.getLast? ≠ some lineFeed ∧ bytes.getLast? ≠ some carriageReturn ∧
      read bytes = .ok column ∧ read mixed = .ok column ∧
      read (bytes ++ [carriageReturn, lineFeed]) = .ok column := by
  have hclean : ¬[carriageReturn, lineFeed] <:+: bytes := by decide
  have hlast : bytes.getLast? = some 56 := by decide
  have hend : AddsReturns (encode "8") (encode "8") := by
    simpa using AddsReturns.nil.append (encode "8")
  have hadds : AddsReturns bytes mixed :=
    (((hend.add.append (encode "7")).keep lineFeed).append (encode "A1\r1 -")).add.append _
  have hread : read bytes = .ok column := by rfl
  have hfeed : bytes.getLast? ≠ some lineFeed := by simp [hlast, lineFeed]
  have hreturn : bytes.getLast? ≠ some carriageReturn := by simp [hlast, carriageReturn]
  obtain ⟨hreturns, hended⟩ := read_line_ends bytes
  obtain ⟨-, hlong⟩ := hended (by decide) hfeed hreturn
  exact ⟨hclean, hadds, hfeed, hreturn, hread, (hreturns hclean mixed hadds).trans hread,
    hlong.trans hread⟩

end LineEndsWitness

end SheetText

end PostfixSheet
