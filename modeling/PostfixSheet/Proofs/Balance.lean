/-
Formulas that are complete postfix expressions.

Each token changes the number of values on the stack in its own way.  A formula is
balanced if every operator finds its operands and one value is left; together with
references that name cells, this is all that a formula needs by itself.
-/
import PostfixSheet.Proofs.Evaluation

namespace PostfixSheet

/-- The number of values on the stack after a token, if it finds its operands. -/
def Token.depthAfter? (depth : Nat) : Token → Option Nat
  | .number _ => some (depth + 1)
  | .reference _ => some (depth + 1)
  | .unary _ => if 1 ≤ depth then some depth else none
  | .binary _ => if 2 ≤ depth then some (depth - 1) else none

/-- No operator lacks operands, and exactly one value is left at the end. -/
def Formula.Balanced (formula : Formula) : Prop :=
  formula.tokens.foldlM Token.depthAfter? 0 = some 1

instance (formula : Formula) : Decidable formula.Balanced :=
  inferInstanceAs (Decidable (_ = _))

namespace Site

theorem faultFrom?_eq_none_iff (site : Site) (tokens : List Token) (depth : Nat) :
    site.faultFrom? tokens depth = none ↔
      tokens.foldlM Token.depthAfter? depth = some 1 ∧
        ∀ text ∈ tokens.filterMap Token.reference?,
          ∃ target, Address.locate text site.rows site.cols = .ok target := by
  induction tokens generalizing depth with
  | nil =>
      rcases depth with _ | _ | depth <;> simp [faultFrom?, pure]
  | cons token rest ih =>
      rw [List.foldlM_cons]
      cases token with
      | number value => exact ih (depth + 1)
      | unary op =>
          rcases depth with _ | depth
          · simp [faultFrom?, Token.depthAfter?]
          · have hdepth : Token.depthAfter? (depth + 1) (.unary op) = some (depth + 1) := by
              simp [Token.depthAfter?]
            rw [hdepth]
            exact ih (depth + 1)
      | binary op =>
          rcases depth with _ | _ | depth
          · simp [faultFrom?, Token.depthAfter?]
          · simp [faultFrom?, Token.depthAfter?]
          · have hdepth : Token.depthAfter? (depth + 2) (.binary op) = some (depth + 1) := by
              simp [Token.depthAfter?]
            rw [hdepth]
            exact ih (depth + 1)
      | reference text =>
          cases hlocated : Address.locate text site.rows site.cols with
          | error fault => simp [faultFrom?, Token.depthAfter?, Token.reference?, hlocated]
          | ok target =>
              simpa [faultFrom?, Token.depthAfter?, Token.reference?, hlocated] using ih (depth + 1)

/-- What a formula needs in order to have no fault of its own. -/
theorem fault?_eq_none_iff (site : Site) :
    site.fault? = none ↔ site.formula.Balanced ∧
      ∀ text ∈ site.formula.references,
        ∃ target, Address.locate text site.rows site.cols = .ok target :=
  site.faultFrom?_eq_none_iff site.formula.tokens 0

end Site

end PostfixSheet
