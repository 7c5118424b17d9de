/-
Evaluation of one formula in postfix notation.

The values of referenced cells come from a lookup, which may carry a state of
its own; that state is kept also when the evaluation fails.
-/
import PostfixSheet.Fault
import PostfixSheet.Formula

namespace PostfixSheet

/-- How to find the value of a referenced cell: from the cell, the reference as
written and the state so far to a value or a fault and the state after. -/
abbrev Lookup (σ : Type) := Address → String → σ → Except Fault Float × σ

/-- A formula where it stands: in a cell of a sheet with `rows` rows and `cols`
columns. -/
structure Site where
  cell : Address
  formula : Formula
  rows : Nat
  cols : Nat

namespace Site

/-- Runs tokens on a stack of values, whose top is in front.  Exactly one value
has to be left at the end. -/
def run {σ : Type} (site : Site) (lookup : Lookup σ) :
    List Token → List Float → σ → Except Fault Float × σ
  | [], [value], s => (.ok value, s)
  | [], stack, s => (.error (.leftover site.cell site.formula.text stack.length), s)
  | .number value :: rest, stack, s => run site lookup rest (value :: stack) s
  | .binary op :: rest, right :: left :: stack, s =>
    run site lookup rest (op.apply left right :: stack) s
  | .binary op :: _, _, s => (.error (.underflow site.cell site.formula.text op.symbol), s)
  | .unary op :: rest, operand :: stack, s =>
    run site lookup rest (op.apply operand :: stack) s
  | .unary op :: _, [], s => (.error (.underflow site.cell site.formula.text op.symbol), s)
  | .reference text :: rest, stack, s =>
    match Address.locate text site.rows site.cols with
    | .error fault => (.error (.ofReference site.cell text fault), s)
    | .ok target =>
      match lookup target text s with
      | (.error fault, s) => (.error fault, s)
      | (.ok value, s) => run site lookup rest (value :: stack) s

/-- Lookups that agree along a map of their states give evaluations that do. -/
theorem run_map {σ τ : Type} (f : σ → τ) (site : Site) {lookup : Lookup σ}
    {image : Lookup τ}
    (hagree : ∀ cell text s,
      image cell text (f s) = ((lookup cell text s).1, f (lookup cell text s).2))
    (tokens : List Token) (stack : List Float) (s : σ) :
    site.run image tokens stack (f s) =
      ((site.run lookup tokens stack s).1, f (site.run lookup tokens stack s).2) := by
  fun_induction run site lookup tokens stack s with
  | case9 text rest stack s target hlocated fault s' hfound =>
    simp [run, hlocated, hagree, hfound]
  | case10 text rest stack s target hlocated s' value hfound ih =>
    simp [run, hlocated, hagree, hfound, ih]
  | _ => simp_all [run]

def evaluate {σ : Type} (site : Site) (lookup : Lookup σ) (s : σ) :
    Except Fault Float × σ :=
  site.run lookup site.formula.tokens [] s

theorem evaluate_map {σ τ : Type} (f : σ → τ) (site : Site) {lookup : Lookup σ}
    {image : Lookup τ}
    (hagree : ∀ cell text s,
      image cell text (f s) = ((lookup cell text s).1, f (lookup cell text s).2))
    (s : σ) :
    site.evaluate image (f s) =
      ((site.evaluate lookup s).1, f (site.evaluate lookup s).2) :=
  run_map f site hagree site.formula.tokens [] s

end Site

end PostfixSheet
