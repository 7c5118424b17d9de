/-
Formulas: the text of a cell and the tokens in it.
-/
import PostfixSheet.Text.Blank
import PostfixSheet.Token

namespace PostfixSheet

structure Formula where
  text : String
  deriving DecidableEq, Repr

namespace Formula

def tokens (formula : Formula) : List Token :=
  (Text.words Text.isSeparator formula.text).map Token.ofText

def isBlank (formula : Formula) : Bool :=
  Text.allBlank formula.text

end Formula

end PostfixSheet
