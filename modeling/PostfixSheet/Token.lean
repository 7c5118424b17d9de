/-
The tokens of a formula.

A token is an operator, a number or a reference.  Operators come first, so that
a lone sign is an operator; what is neither operator nor number counts as a
reference, whatever it looks like.
-/
import PostfixSheet.Decimal.Literal
import PostfixSheet.Decimal.Shortest

namespace PostfixSheet

inductive BinaryOperator where
  | add
  | subtract
  | multiply
  | divide
  deriving DecidableEq, Repr

inductive UnaryOperator where
  | increment
  | decrement
  deriving DecidableEq, Repr

namespace BinaryOperator

def symbol : BinaryOperator → String
  | .add => "+"
  | .subtract => "-"
  | .multiply => "*"
  | .divide => "/"

/-- The operand that was written first is the left one. -/
def apply : BinaryOperator → Float → Float → Float
  | .add, left, right => left + right
  | .subtract, left, right => left - right
  | .multiply, left, right => left * right
  | .divide, left, right => left / right

end BinaryOperator

namespace UnaryOperator

def symbol : UnaryOperator → String
  | .increment => "++"
  | .decrement => "--"

def apply : UnaryOperator → Float → Float
  | .increment, operand => operand + 1.0
  | .decrement, operand => operand - 1.0

end UnaryOperator

inductive Token where
  | number (value : Float)
  | binary (op : BinaryOperator)
  | unary (op : UnaryOperator)
  /-- A reference keeps its text; nothing is known yet about its form. -/
  | reference (text : String)
  deriving DecidableEq

namespace Token

def ofText : String → Token
  | "+" => .binary .add
  | "-" => .binary .subtract
  | "*" => .binary .multiply
  | "/" => .binary .divide
  | "++" => .unary .increment
  | "--" => .unary .decrement
  | text =>
    match Decimal.Literal.ofText? text with
    | some literal => .number literal.value
    | none => .reference text

/-- The text of a token: for a number its shortest decimal. -/
def text : Token → String
  | .number value => Decimal.shortest value
  | .binary op => op.symbol
  | .unary op => op.symbol
  | .reference text => text

end Token

end PostfixSheet
