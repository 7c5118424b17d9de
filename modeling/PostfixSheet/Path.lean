/-
Paths: names with slashes between them.

A part that is empty or a single dot leads no further than what has been reached
before it.
-/
namespace PostfixSheet

namespace Path

/-- What stands before, between and after the slashes of a path. -/
def parts (path : String) : List String :=
  (path.toList.splitOn '/').map String.ofList

/-- Tells whether a part leads no further. -/
def isIdle (part : String) : Bool := part = "" ∨ part = "."

/-- Tells whether a path starts at the top of all folders. -/
def isAbsolute (path : String) : Bool := path.toList.head? = some '/'

/-- Tells whether a path stands for standard input.  A lone dash does, and so it
does before parts that lead no further; a dash reached from another part is the
name of a file. -/
def isDash (path : String) : Bool :=
  match parts path with
  | [] => false
  | first :: rest => first = "-" && rest.all isIdle

end Path

end PostfixSheet
