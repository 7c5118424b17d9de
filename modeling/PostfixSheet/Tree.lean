/-
Expression trees, the meaning of a formula without a stack.

The tokens of a tree are its nodes in postorder.  Its value is found by taking
the value of the left operand before that of the right one, so that references
are looked up in the order in which they are written.
-/
import PostfixSheet.Postfix

namespace PostfixSheet

inductive Tree where
  | number (value : Float)
  | reference (text : String)
  | unary (op : UnaryOperator) (operand : Tree)
  | binary (op : BinaryOperator) (left right : Tree)
  deriving DecidableEq

namespace Tree

/-- The tokens of a tree, operators after their operands. -/
def postorder : Tree → List Token
  | .number value => [.number value]
  | .reference text => [.reference text]
  | .unary op operand => operand.postorder ++ [.unary op]
  | .binary op left right => left.postorder ++ right.postorder ++ [.binary op]

/-- The value of a tree that stands at a site. -/
def value {σ : Type} (site : Site) (lookup : Lookup σ) :
    Tree → σ → Except Fault Float × σ
  | .number value, s => (.ok value, s)
  | .reference text, s =>
    match Address.locate text site.rows site.cols with
    | .error fault => (.error (.ofReference site.cell text fault), s)
    | .ok target => lookup target text s
  | .unary op operand, s =>
    match operand.value site lookup s with
    | (.error fault, s) => (.error fault, s)
    | (.ok value, s) => (.ok (op.apply value), s)
  | .binary op left right, s =>
    match left.value site lookup s with
    | (.error fault, s) => (.error fault, s)
    | (.ok first, s) =>
      match right.value site lookup s with
      | (.error fault, s) => (.error fault, s)
      | (.ok second, s) => (.ok (op.apply first second), s)

/-- Running the tokens of a tree puts its value on the stack, or ends with its
fault. -/
theorem run_postorder {σ : Type} (site : Site) (lookup : Lookup σ) (tree : Tree)
    (rest : List Token) (stack : List Float) (s : σ) :
    site.run lookup (tree.postorder ++ rest) stack s =
      match tree.value site lookup s with
      | (.ok value, s) => site.run lookup rest (value :: stack) s
      | (.error fault, s) => (.error fault, s) := by
  induction tree generalizing rest stack s with
  | number x => simp [postorder, value, Site.run]
  | reference text =>
    simp only [postorder, value, List.singleton_append, Site.run]
    cases Address.locate text site.rows site.cols with
    | error fault => rfl
    | ok target => dsimp only; split <;> simp_all
  | unary op operand ih =>
    simp only [postorder, value, List.append_assoc, ih]
    cases operand.value site lookup s with
    | mk answer s => cases answer <;> simp [Site.run]
  | binary op left right ihLeft ihRight =>
    simp only [postorder, value, List.append_assoc, ihLeft, ihRight]
    cases left.value site lookup s with
    | mk answer s =>
      cases answer with
      | error fault => rfl
      | ok first =>
        dsimp only
        cases right.value site lookup s with
        | mk answer s => cases answer <;> simp [Site.run]

end Tree

end PostfixSheet
