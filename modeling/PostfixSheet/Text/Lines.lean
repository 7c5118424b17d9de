/-
The lines of a sequence of bytes.

A line ends at a line feed, and one carriage return just before that line feed
belongs to the end of the line.  Bytes after the last line feed are a line too.
-/
namespace PostfixSheet.Text

def lineFeed : UInt8 := 10

/-- The byte that may stand before a line feed. -/
def carriageReturn : UInt8 := 13

/-- Takes one carriage return off the end of a line. -/
def dropReturn (line : List UInt8) : List UInt8 :=
  if line.getLast? = some carriageReturn then line.dropLast else line

/-- The lines of a text without their line ends.  What stands after the last line
feed is a line only if it is not empty, and keeps its carriage return. -/
def lines (bytes : List UInt8) : List (List UInt8) :=
  let pieces := bytes.splitOn lineFeed
  pieces.dropLast.map dropReturn ++ pieces.getLast?.toList.filter (!·.isEmpty)

def encode (text : String) : List UInt8 :=
  text.toUTF8.data.toList

/-- The text of a line, if its bytes are UTF-8. -/
def decode? (line : List UInt8) : Option String :=
  String.fromUTF8? ⟨line.toArray⟩

end PostfixSheet.Text
