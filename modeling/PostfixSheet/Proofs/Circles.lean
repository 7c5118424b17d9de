/-
Reported circles.

The cells above an evaluation refer to each other one after the other, and no cell
is among them twice.  A circle that is reported is the last part of such a way,
closed by the first reference of its trigger that leads back to its start.
-/
import Mathlib.Data.List.Chain
import PostfixSheet.Proofs.Directness

namespace PostfixSheet

namespace Sheet

variable {sheet : Sheet} {cell target : Address} {ancestors : List Address}
  {reference text : String} {circle : Circle}

/-- This is the first reference in the formula of `source` that names `target`. -/
def FirstReference (sheet : Sheet) (source : Address) (reference : String)
    (target : Address) : Prop :=
  ∃ formula before after, sheet.formula? source = some formula ∧
    formula.references = before ++ reference :: after ∧
    Address.locate reference sheet.rows sheet.cols = .ok target ∧
    ∀ earlier ∈ before, Address.locate earlier sheet.rows sheet.cols ≠ .ok target

/-- The circle is one of the sheet: it goes once around from the revisited cell
through the trigger along references, and names the reference that closes it. -/
structure Closes (sheet : Sheet) (circle : Circle) : Prop where
  two_le : 2 ≤ circle.chain.length
  starts : circle.chain.head? = some circle.revisited
  ends : circle.chain.getLast? = some circle.revisited
  triggered : circle.chain.dropLast.getLast? = some circle.trigger
  nodup : circle.chain.dropLast.Nodup
  holds : ∀ cell ∈ circle.chain, sheet.Holds cell
  refers : circle.chain.IsChain sheet.Refers
  first : sheet.FirstReference circle.trigger circle.reference circle.revisited
  trigger_text : (sheet.formula? circle.trigger).map Formula.text = some circle.triggerText
  revisited_text :
    (sheet.formula? circle.revisited).map Formula.text = some circle.revisitedText

/-- How an evaluation comes to a cell: its ancestors are different cells of the
sheet, each refers to the next, and the last one refers to the cell. -/
structure Descends (sheet : Sheet) (ancestors : List Address) (reference : String)
    (cell : Address) : Prop where
  nodup : ancestors.Nodup
  holds : ∀ other ∈ ancestors, sheet.Holds other
  linked : ancestors.IsChain sheet.Refers
  refers : ∀ last, ancestors.getLast? = some last → sheet.Refers last cell
  first : cell ∈ ancestors → ∀ last, ancestors.getLast? = some last →
    sheet.FirstReference last reference cell

theorem descends_nil (sheet : Sheet) (reference : String) (cell : Address) :
    sheet.Descends [] reference cell where
  nodup := List.nodup_nil
  holds := by simp
  linked := .nil
  refers := by simp
  first := by simp

theorem textOf_eq (inside : sheet.Holds cell) :
    (sheet.formula? cell).map Formula.text = some (sheet.textOf cell) := by
  simp [textOf, formula?_eq_some inside]

/-- An ancestor that is met again closes a circle of the sheet. -/
theorem Descends.closes (h : sheet.Descends ancestors reference cell)
    (hmem : cell ∈ ancestors) : sheet.Closes (sheet.circleFrom ancestors reference cell) := by
  obtain ⟨above, below, hsplit, hnew⟩ := List.eq_append_cons_of_mem hmem
  obtain ⟨last, hlast⟩ : ∃ last, ancestors.getLast? = some last :=
    ⟨_, List.getLast?_eq_some_getLast (List.ne_nil_of_mem hmem)⟩
  have hloop : (cell :: below).getLast? = some last := by
    rw [← hlast, hsplit, List.getLast?_append_of_ne_nil _ (List.cons_ne_nil _ _)]
  have hchain : (sheet.circleFrom ancestors reference cell).chain = cell :: below ++ [cell] := by
    change ancestors.dropWhile (· ≠ cell) ++ [cell] = _
    rw [hsplit, Trail.dropWhile_append_cons hnew]
  have htrigger : (sheet.circleFrom ancestors reference cell).trigger = last := by
    simp [circleFrom, hlast]
  have hpart : ∀ other ∈ cell :: below, other ∈ ancestors := by
    intro other hother
    rw [hsplit]
    exact List.mem_append_right above hother
  have hinside : sheet.Holds last := h.holds last (hpart last (List.mem_of_getLast? hloop))
  have hlinked : (cell :: below).IsChain sheet.Refers := (hsplit ▸ h.linked).right_of_append
  constructor
  case two_le => simp [hchain]
  case starts =>
    rw [hchain]
    rfl
  case ends =>
    rw [hchain, List.getLast?_concat]
    rfl
  case triggered => rw [hchain, List.dropLast_concat, htrigger, hloop]
  case nodup =>
    rw [hchain, List.dropLast_concat]
    exact (List.nodup_append.1 (hsplit ▸ h.nodup)).2.1
  case holds =>
    intro other hother
    rw [hchain] at hother
    rcases List.mem_append.1 hother with hpassed | hclosed
    · exact h.holds other (hpart other hpassed)
    · exact h.holds other (List.mem_singleton.1 hclosed ▸ hmem)
  case refers =>
    rw [hchain]
    refine hlinked.append (.singleton cell) ?_
    rintro source hsource next ⟨⟩
    obtain rfl : last = source := Option.some.inj (hloop.symm.trans hsource)
    exact h.refers last hlast
  case first =>
    rw [htrigger]
    exact h.first hmem last hlast
  case trigger_text =>
    rw [textOf_eq (htrigger.symm ▸ hinside), htrigger]
    simp [circleFrom, hlast]
  case revisited_text => exact textOf_eq (h.holds cell hmem)

/-- A reference that fails, when all before it have been found, leads on from the
cell or closes a circle at it. -/
theorem Descends.step (h : sheet.Descends ancestors reference cell)
    (inside : sheet.Holds cell) (hnew : cell ∉ ancestors) {before after : List String}
    (hsplit : (sheet.site cell inside).formula.references = before ++ text :: after)
    (hlocated : Address.locate text sheet.rows sheet.cols = .ok target)
    (hfound : ∀ earlier ∈ before, ∃ other value,
      Address.locate earlier sheet.rows sheet.cols = .ok other ∧
      sheet.direct (ancestors ++ [cell]) earlier other = .ok value) :
    sheet.Descends (ancestors ++ [cell]) text target := by
  have hrefers := refers_of_split inside hsplit hlocated
  constructor
  case nodup =>
    rw [List.nodup_append]
    refine ⟨h.nodup, by simp, ?_⟩
    intro other hother _ hself hsame
    rw [List.mem_singleton.1 hself] at hsame
    exact hnew (hsame ▸ hother)
  case holds =>
    intro other hother
    rcases List.mem_append.1 hother with hold | hself
    · exact h.holds other hold
    · exact List.mem_singleton.1 hself ▸ inside
  case linked =>
    refine h.linked.append (.singleton cell) ?_
    rintro source hsource next ⟨⟩
    exact h.refers source hsource
  case refers =>
    intro last hlast
    obtain rfl : cell = last := by simpa using hlast
    exact hrefers
  case first =>
    intro hmem last hlast
    obtain rfl : cell = last := by simpa using hlast
    refine ⟨_, before, after, formula?_eq_some inside, hsplit, hlocated, ?_⟩
    intro earlier hearlier hsame
    obtain ⟨other, value, hother, hvalue⟩ := hfound earlier hearlier
    obtain rfl : target = other := Except.ok.inj (hsame.symm.trans hother)
    simp [direct_of_mem hrefers.holds hmem] at hvalue

/-- Circles found from the formulas alone are circles of the sheet. -/
theorem direct_closes (h : sheet.Descends ancestors reference cell)
    (hfailed : sheet.direct ancestors reference cell = .error (.circular circle)) :
    sheet.Closes circle := by
  fun_induction direct sheet ancestors reference cell with
  | case1 ancestors reference cell inside hmem =>
      cases hfailed
      exact h.closes hmem
  | case2 ancestors reference cell inside hnew hless ih =>
      rcases Site.evaluate_eq_error hfailed with
        hown | ⟨before, text, after, target, hsplit, hlocated, hdeeper, hfound⟩
      · exact absurd hown (Site.faultFrom?_ne_circular _ _ _ _)
      · exact ih target text (h.step inside hnew hsplit hlocated hfound) hdeeper
  | case3 ancestors reference cell houtside => cases hfailed

/-- Whatever was called before, a circle that an evaluation without a trail reports
is one of the sheet, and so is one that a calculation reports. -/
theorem circular_closes (sheet : Sheet) (calls : List Call) (circle : Circle)
    (hfailed : (∃ cell, (sheet.compute cell ⟨sheet.afterAll calls, .empty⟩).1 =
        .error (.circular circle)) ∨
      (sheet.computeAll (sheet.afterAll calls)).1 = .error (.circular circle)) :
    sheet.Closes circle ∧ (Fault.circular circle).cell = circle.trigger := by
  have hconsistent := sheet.consistent_afterAll calls
  refine ⟨?_, rfl⟩
  rcases hfailed with ⟨cell, hcell⟩ | hall
  · rw [hconsistent.compute_eq_direct cell ""] at hcell
    exact direct_closes (sheet.descends_nil "" cell) hcell
  · rcases hconsistent.computeEach_answer sheet.addresses "" with
      ⟨-, hok⟩ | ⟨before, cell, after, fault, -, -, hfault, herror⟩
    · cases hok.symm.trans hall
    · cases herror.symm.trans hall
      exact direct_closes (sheet.descends_nil "" cell) hfault

namespace CircleWitness

/-- The first cell finds its second operand before its third one leads back. -/
def ring : Sheet where
  rows := 3
  cols := 1
  formulas := #v[⟨"B1 C1 +"⟩, ⟨"1"⟩, ⟨"A1"⟩]
  rows_pos := by decide
  cols_pos := by decide
  rows_le := by decide
  size_le := by decide
  not_blank := by decide

def ringCircle : Circle where
  trigger := ⟨0, 0⟩
  triggerText := "B1 C1 +"
  reference := "C1"
  revisited := ⟨2, 0⟩
  revisitedText := "A1"
  chain := [⟨2, 0⟩, ⟨0, 0⟩, ⟨2, 0⟩]

/-- The ring is reported with the reference that closes it from where it is entered,
also when failures from the other side have gone before. -/
theorem circular_closes_ring :
    (ring.compute ⟨2, 0⟩ ⟨ring.afterAll [.cell ⟨0, 0⟩ .empty, .all], .empty⟩).1 =
        .error (.circular ringCircle) ∧
      ring.Closes ringCircle ∧ (Fault.circular ringCircle).cell = ringCircle.trigger := by
  have hfailed : (ring.compute ⟨2, 0⟩
      ⟨ring.afterAll [.cell ⟨0, 0⟩ .empty, .all], .empty⟩).1 =
      .error (.circular ringCircle) := by
    decide +kernel
  exact ⟨hfailed, circular_closes ring _ ringCircle (Or.inl ⟨_, hfailed⟩)⟩

end CircleWitness

end Sheet

end PostfixSheet
