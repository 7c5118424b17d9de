/-
Blank characters, and the words of a text that stand between them.

Two classes of characters separate things in a sheet.  Whether a line holds
anything at all is decided by the Unicode property White_Space; a formula is
cut into tokens at five ASCII characters only, and each of those five is blank.
-/
namespace PostfixSheet.Text

/-- The code points with the Unicode property White_Space, as closed ranges. -/
def blankRanges : List (Nat × Nat) :=
  [(0x09, 0x0D), (0x20, 0x20), (0x85, 0x85), (0xA0, 0xA0), (0x1680, 0x1680),
    (0x2000, 0x200A), (0x2028, 0x2029), (0x202F, 0x202F), (0x205F, 0x205F),
    (0x3000, 0x3000)]

/-- A character is blank when Unicode gives it the property White_Space. -/
def isBlank (c : Char) : Bool :=
  blankRanges.any fun range => range.1 ≤ c.toNat && c.toNat ≤ range.2

/-- Tokens are separated by spaces, tabs, line feeds, form feeds and carriage
returns. -/
def isSeparator (c : Char) : Bool :=
  c == ' ' || c == '\t' || c == '\n' || c == '\x0c' || c == '\r'

theorem isBlank_of_isSeparator {c : Char} (h : isSeparator c = true) :
    isBlank c = true := by
  simp only [isSeparator, Bool.or_eq_true, beq_iff_eq] at h
  rcases h with (((rfl | rfl) | rfl) | rfl) | rfl <;> decide

/-- The core library's blank characters are among these. -/
theorem isBlank_of_isWhitespace {c : Char} (h : c.isWhitespace = true) :
    isBlank c = true := by
  simp only [Char.isWhitespace, Bool.or_eq_true, decide_eq_true_eq] at h
  rcases h with ((rfl | rfl) | rfl) | rfl <;> decide

/-- The words of a text: its longest pieces without a character of the class
`cut`, in order. -/
def words (cut : Char → Bool) (text : String) : List String :=
  ((text.toList.splitOnP cut).filter (!·.isEmpty)).map String.ofList

def allBlank (text : String) : Bool :=
  text.toList.all isBlank

/-- The text without the blank characters at its two ends. -/
def trim (text : String) : String :=
  String.ofList
    ((text.toList.dropWhile isBlank).reverse.dropWhile isBlank).reverse

end PostfixSheet.Text
