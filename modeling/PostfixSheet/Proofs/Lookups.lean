/-
The references that a formula comes to.

They are known from its tokens: an evaluation looks them up one after the other, up to
the first that fails.  What the lookups answer has no other influence on the state that
is left behind.
-/
import PostfixSheet.Proofs.Evaluation

namespace PostfixSheet

variable {σ : Type}

/-- The state after looking up references in order, up to the first that fails. -/
def Lookup.each (lookup : Lookup σ) : List (String × Address) → σ → σ
  | [], s => s
  | (text, target) :: rest, s =>
    match lookup target text s with
    | (.error _, s) => s
    | (.ok _, s) => Lookup.each lookup rest s

theorem Lookup.each_of_ok {lookup : Lookup σ} {text : String} {target : Address} {s t : σ}
    {value : Float} (h : lookup target text s = (.ok value, t))
    (rest : List (String × Address)) :
    Lookup.each lookup ((text, target) :: rest) s = Lookup.each lookup rest t := by
  rw [Lookup.each, h]

theorem Lookup.each_of_error {lookup : Lookup σ} {text : String} {target : Address} {s t : σ}
    {fault : Fault} (h : lookup target text s = (.error fault, t))
    (rest : List (String × Address)) :
    Lookup.each lookup ((text, target) :: rest) s = t := by
  rw [Lookup.each, h]

namespace Site

/-- The references that tokens come to on a stack of the given depth when no lookup
fails, with the cells that they name. -/
def lookupsFrom (site : Site) : List Token → Nat → List (String × Address)
  | [], _ => []
  | .number _ :: rest, depth => lookupsFrom site rest (depth + 1)
  | .binary _ :: rest, depth + 2 => lookupsFrom site rest (depth + 1)
  | .binary _ :: _, _ => []
  | .unary _ :: rest, depth + 1 => lookupsFrom site rest (depth + 1)
  | .unary _ :: _, 0 => []
  | .reference text :: rest, depth =>
    match Address.locate text site.rows site.cols with
    | .error _ => []
    | .ok target => (text, target) :: lookupsFrom site rest (depth + 1)

/-- The references that the formula comes to when no lookup fails. -/
def lookups (site : Site) : List (String × Address) :=
  site.lookupsFrom site.formula.tokens 0

/-- What is looked up are references of the formula that lead to cells of the sheet. -/
theorem of_mem_lookupsFrom {site : Site} {tokens : List Token} {depth : Nat} {text : String}
    {target : Address} (h : (text, target) ∈ site.lookupsFrom tokens depth) :
    text ∈ tokens.filterMap Token.reference? ∧
      Address.locate text site.rows site.cols = .ok target := by
  fun_induction lookupsFrom site tokens depth with
  | case8 other rest depth found located ih =>
      rcases List.mem_cons.1 h with hsame | hrest
      · cases hsame
        exact ⟨List.mem_cons_self, located⟩
      · exact ⟨List.mem_cons_of_mem other (ih hrest).1, (ih hrest).2⟩
  | case2 _ _ _ ih | case3 _ _ _ ih | case5 _ _ _ ih => exact ih h
  | _ => cases h

theorem run_state (site : Site) (lookup : Lookup σ) (tokens : List Token)
    (stack : List Float) (s : σ) :
    (site.run lookup tokens stack s).2 =
      Lookup.each lookup (site.lookupsFrom tokens stack.length) s := by
  fun_induction run site lookup tokens stack s with
  | case5 op rest stack s hshort =>
      rcases stack with _ | ⟨right, _ | ⟨left, stack⟩⟩
      · rfl
      · rfl
      · exact absurd rfl (hshort right left stack)
  | _ => simp_all [lookupsFrom, Lookup.each]

/-- The state after an evaluation is that after its lookups. -/
theorem evaluate_state (site : Site) (lookup : Lookup σ) (s : σ) :
    (site.evaluate lookup s).2 = Lookup.each lookup site.lookups s :=
  site.run_state lookup site.formula.tokens [] s

end Site

end PostfixSheet
