/-
The value of a cell as the formulas determine it.

A cell denotes the value of its formula for the values that the cells it refers to
denote.  A cell denotes at most one value, and none if references lead from it
into a circle.
-/
import PostfixSheet.Compute
import PostfixSheet.Dependency
import PostfixSheet.Proofs.Evaluation

namespace PostfixSheet

namespace Sheet

variable {sheet : Sheet} {cell target : Address} {value : Float}

theorem formula?_eq_some (inside : sheet.Holds cell) :
    sheet.formula? cell = some (sheet.site cell inside).formula := by
  simp [formula?, index?, inside, site]

theorem refers_iff (inside : sheet.Holds cell) :
    sheet.Refers cell target ↔ ∃ text ∈ (sheet.site cell inside).formula.references,
      Address.locate text sheet.rows sheet.cols = .ok target := by
  constructor
  · rintro ⟨formula, text, hformula, htoken, hlocated⟩
    rw [formula?_eq_some inside] at hformula
    cases hformula
    exact ⟨text, Formula.mem_references.2 htoken, hlocated⟩
  · rintro ⟨text, htext, hlocated⟩
    exact ⟨_, text, formula?_eq_some inside, Formula.mem_references.1 htext, hlocated⟩

theorem refers_of_split (inside : sheet.Holds cell) {before after : List String} {text : String}
    (hsplit : (sheet.site cell inside).formula.references = before ++ text :: after)
    (hlocated : Address.locate text sheet.rows sheet.cols = .ok target) :
    sheet.Refers cell target :=
  (refers_iff inside).2 ⟨text, by rw [hsplit]; simp, hlocated⟩

theorem Refers.holds_source (h : sheet.Refers cell target) : sheet.Holds cell := by
  obtain ⟨formula, _, hformula, _, _⟩ := h
  by_cases inside : sheet.Holds cell
  · exact inside
  · simp [formula?, index?, inside] at hformula

/-- The formulas give a value to a cell once they give values to all cells that it
refers to. -/
inductive Denotes (sheet : Sheet) : Address → Float → Prop
  | intro {cell : Address} {value : Float} (inside : sheet.Holds cell)
      (values : Address → Float)
      (operands : ∀ target, sheet.Refers cell target → Denotes sheet target (values target))
      (evaluated : ((sheet.site cell inside).evaluate (.ofValues values) ()).1 = .ok value) :
      Denotes sheet cell value

def HasValue (sheet : Sheet) (cell : Address) : Prop :=
  ∃ value, sheet.Denotes cell value

theorem Denotes.holds (h : sheet.Denotes cell value) : sheet.Holds cell := by
  cases h
  assumption

/-- A formula has one value for lookups that agree on the cells it refers to. -/
theorem evaluate_ofValues_congr (inside : sheet.Holds cell) (values others : Address → Float)
    (hsame : ∀ target, sheet.Refers cell target → values target = others target) :
    ((sheet.site cell inside).evaluate (.ofValues values) ()).1 =
      ((sheet.site cell inside).evaluate (.ofValues others) ()).1 := by
  have hagree := (sheet.site cell inside).evaluate_agree (f := .ofValues values)
    (g := .ofValues others) (R := fun _ _ _ => True) (E := fun _ _ _ => True)
    (s := ()) (t := ())
    (by
      intro before text after target _ _ hsplit hlocated _
      have hrefers := refers_of_split inside hsplit hlocated
      refine ⟨?_, fun _ _ => trivial, fun _ _ => trivial⟩
      simp [Lookup.ofValues, hsame target hrefers])
    (fun _ _ _ _ _ _ => trivial) trivial
  exact hagree.answer

theorem Denotes.unique {other : Float} (h : sheet.Denotes cell value)
    (hother : sheet.Denotes cell other) : value = other := by
  induction h generalizing other with
  | intro inside values operands evaluated ih =>
      cases hother with
      | intro inside' others operands' evaluated' =>
          have hsame := evaluate_ofValues_congr inside values others fun target hrefers =>
            ih target hrefers (operands' target hrefers)
          rw [evaluated, evaluated'] at hsame
          exact Except.ok.inj hsame

theorem Denotes.fault?_eq_none (inside : sheet.Holds cell) (h : sheet.Denotes cell value) :
    (sheet.site cell inside).fault? = none := by
  cases h with
  | intro _ values operands evaluated => exact Site.fault?_eq_none_of_evaluate evaluated

theorem HasValue.of_refers (h : sheet.HasValue cell) (hrefers : sheet.Refers cell target) :
    sheet.HasValue target := by
  obtain ⟨value, hdenotes⟩ := h
  cases hdenotes with
  | intro inside values operands evaluated => exact ⟨values target, operands target hrefers⟩

theorem HasValue.of_reaches (h : sheet.HasValue cell) (hreaches : sheet.Reaches cell target) :
    sheet.HasValue target := by
  induction hreaches with
  | refl _ => exact h
  | step hrefers _ ih => exact ih (h.of_refers hrefers)

theorem Denotes.not_reaches {next : Address} (h : sheet.Denotes cell value)
    (hrefers : sheet.Refers cell next) : ¬sheet.Reaches next cell := by
  induction h generalizing next with
  | @intro cell value inside values operands evaluated ih =>
      intro hback
      cases hback with
      | refl _ => exact ih cell hrefers hrefers (.refl cell)
      | step hnext hrest =>
          exact ih next hrefers hnext (hrest.trans (.step hrefers (.refl next)))

theorem HasValue.not_reaches {next : Address} (h : sheet.HasValue cell)
    (hrefers : sheet.Refers cell next) : ¬sheet.Reaches next cell := by
  obtain ⟨value, hdenotes⟩ := h
  exact hdenotes.not_reaches hrefers

/-- A cell has a value if its formula is in order and the cells that it refers to
have values. -/
theorem hasValue_of_refers (inside : sheet.Holds cell)
    (hfault : (sheet.site cell inside).fault? = none)
    (hoperands : ∀ target, sheet.Refers cell target → sheet.HasValue target) :
    sheet.HasValue cell := by
  classical
  let values (target : Address) : Float :=
    if h : sheet.HasValue target then h.choose else 0
  obtain ⟨value, hvalue⟩ := Site.exists_value_of_fault?_eq_none hfault values
  refine ⟨value, .intro inside values ?_ hvalue⟩
  intro target hrefers
  have hknown := hoperands target hrefers
  simp only [values, hknown, dif_pos]
  exact hknown.choose_spec

end Sheet

end PostfixSheet
