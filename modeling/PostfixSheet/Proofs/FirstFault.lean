/-
Where a formula fails.

The tokens of a formula are read from the left, and the first one with a fault decides: an
operator that lacks operands, a reference that names no cell, or one whose lookup fails.
Whether operands are there is known from counting the tokens before.  Up to that token every
reference is looked up once, and none after it.
-/
import Mathlib.Data.List.Induction
import PostfixSheet.Proofs.Evaluation

namespace PostfixSheet

variable {σ : Type}

namespace Token

/-- Numbers and references put a value on the stack. -/
def isOperand : Token → Bool
  | .number _ => true
  | .reference _ => true
  | _ => false

/-- Operators on two operands leave one value where there were two. -/
def isBinary : Token → Bool
  | .binary _ => true
  | _ => false

/-- The number of values that tokens leave on the stack, if no operand is missing. -/
def depth (tokens : List Token) : Int :=
  tokens.countP isOperand - tokens.countP isBinary

@[simp] theorem depth_number (value : Float) : depth [.number value] = 1 := rfl

@[simp] theorem depth_reference (text : String) : depth [.reference text] = 1 := rfl

@[simp] theorem depth_unary (op : UnaryOperator) : depth [.unary op] = 0 := rfl

end Token

namespace Lookup

/-- The state after looking up references in order, whatever comes of them. -/
def stateAfter (lookup : Lookup σ) (calls : List (String × Address)) (s : σ) : σ :=
  calls.foldl (fun s call => (lookup call.2 call.1 s).2) s

/-- The same lookup, which also notes what it is asked for, in order. -/
def noted (lookup : Lookup σ) : Lookup (σ × List (String × Address)) :=
  fun target text s =>
    ((lookup target text s.1).1, (lookup target text s.1).2, s.2 ++ [(text, target)])

theorem stateAfter_noted (lookup : Lookup σ) (calls log : List (String × Address)) (s : σ) :
    lookup.noted.stateAfter calls (s, log) = (lookup.stateAfter calls s, log ++ calls) := by
  induction calls generalizing s log with
  | nil => exact Prod.ext rfl (List.append_nil log).symm
  | cons call rest ih =>
      have hrest := ih (log ++ [call]) (lookup call.2 call.1 s).2
      rw [List.append_assoc] at hrest
      exact hrest

end Lookup

namespace Site

/-- The references among tokens that name cells of the sheet, with these cells. -/
def located (site : Site) (tokens : List Token) : List (String × Address) :=
  (tokens.filterMap Token.reference?).filterMap fun text =>
    match Address.locate text site.rows site.cols with
    | .ok target => some (text, target)
    | .error _ => none

/-- The fault of a token, with so many values on the stack. -/
def faultOf? (site : Site) (lookup : Lookup σ) (depth : Int) (s : σ) : Token → Option Fault
  | .number _ => none
  | .unary op =>
    if depth < 1 then some (.underflow site.cell site.formula.text op.symbol) else none
  | .binary op =>
    if depth < 2 then some (.underflow site.cell site.formula.text op.symbol) else none
  | .reference text =>
    match Address.locate text site.rows site.cols with
    | .error fault => some (.ofReference site.cell text fault)
    | .ok target =>
      match lookup target text s with
      | (.error fault, _) => some fault
      | (.ok _, _) => none

/-- The fault of a token behind other tokens, whose references have been looked up. -/
def faultAfter? (site : Site) (lookup : Lookup σ) (s : σ) (before : List Token)
    (token : Token) : Option Fault :=
  site.faultOf? lookup (Token.depth before) (lookup.stateAfter (site.located before) s) token

/-- No token has a fault. -/
def Passes (site : Site) (lookup : Lookup σ) (s : σ) (tokens : List Token) : Prop :=
  ∀ before token after, tokens = before ++ token :: after →
    site.faultAfter? lookup s before token = none

/-- What the lookup is asked for while the formula is evaluated, in order. -/
def asked (site : Site) (lookup : Lookup σ) (s : σ) : List (String × Address) :=
  (site.evaluate lookup.noted (s, [])).2.2

variable {site : Site} {lookup : Lookup σ} {s : σ} {before after tokens : List Token}
  {token : Token} {stack : List Float} {fault : Fault} {text : String}

theorem Passes.of_append (h : site.Passes lookup s (before ++ after)) :
    site.Passes lookup s before := by
  intro earlier token later hsplit
  exact h earlier token (later ++ after) (by simp [hsplit])

/-- Noting what is asked for changes no answer. -/
theorem faultAfter?_noted (before : List Token) (token : Token) :
    site.faultAfter? lookup.noted (s, []) before token =
      site.faultAfter? lookup s before token := by
  rw [faultAfter?, faultAfter?, Lookup.stateAfter_noted]
  cases token with
  | number _ | unary _ | binary _ => rfl
  | reference text =>
      cases hlocated : Address.locate text site.rows site.cols with
      | error reason => simp only [faultOf?, hlocated]
      | ok target =>
          simp only [faultOf?, hlocated, Lookup.noted]
          rcases lookup target text _ with ⟨_ | _, _⟩ <;> rfl

theorem Passes.noted (h : site.Passes lookup s tokens) :
    site.Passes lookup.noted (s, []) tokens := by
  intro before token after hsplit
  rw [faultAfter?_noted]
  exact h before token after hsplit

end Site

end PostfixSheet
