/-
Which cells a cell depends on.
-/
import PostfixSheet.Sheet

namespace PostfixSheet

namespace Sheet

def Refers (sheet : Sheet) (source target : Address) : Prop :=
  ∃ formula text, sheet.formula? source = some formula ∧
    Token.reference text ∈ formula.tokens ∧
    Address.locate text sheet.rows sheet.cols = .ok target

/-- A cell can be reached by following any number of references. -/
inductive Reaches (sheet : Sheet) : Address → Address → Prop
  | refl (cell : Address) : Reaches sheet cell cell
  | step {cell next last : Address} :
      sheet.Refers cell next → Reaches sheet next last → Reaches sheet cell last

/-- No cell is reached from a cell that it refers to itself. -/
def Acyclic (sheet : Sheet) : Prop :=
  ∀ cell next, sheet.Refers cell next → ¬sheet.Reaches next cell

theorem Reaches.trans {sheet : Sheet} {first second third : Address}
    (h : sheet.Reaches first second) (h' : sheet.Reaches second third) :
    sheet.Reaches first third := by
  induction h with
  | refl _ => exact h'
  | step hrefers _ ih => exact .step hrefers (ih h')

theorem Refers.holds {sheet : Sheet} {source target : Address}
    (h : sheet.Refers source target) : sheet.Holds target := by
  obtain ⟨_, text, _, _, hlocated⟩ := h
  unfold Address.locate at hlocated
  split at hlocated
  · contradiction
  · contradiction
  · split at hlocated
    · cases hlocated
      assumption
    · contradiction

end Sheet

end PostfixSheet
