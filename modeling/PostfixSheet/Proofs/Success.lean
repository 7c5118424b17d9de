/-
When a calculation succeeds, and with which values.

A sheet can be calculated exactly if its formulas are complete, its references
lead to cells of the sheet and never around in a circle.  Its values are then the
only ones that fit all formulas at once.
-/
import Mathlib.Data.List.FinRange
import Mathlib.Tactic.Choose
import PostfixSheet.Proofs.Circles
import PostfixSheet.Proofs.Parsing

namespace PostfixSheet

theorem Progress.values?_eq_some {size : Nat} {progress : Progress size}
    {values : Fin size → Float} (h : ∀ place, progress.mark place = .done (values place)) :
    progress.values? = some (List.ofFn values) := by
  have hentries : progress.entries.toList =
      (List.finRange size).map fun place => progress.entries[place] := by
    apply List.ext_getElem <;> simp
  have hvalues : (fun place : Fin size => progress.entries[place].mark.value?) =
      fun place => pure (values place) := by
    funext place
    exact congrArg Mark.value? (h place)
  rw [values?, hentries, List.mapM_map]
  change (List.finRange size).mapM (fun place : Fin size => progress.entries[place].mark.value?) = _
  rw [hvalues, List.mapM_pure, List.ofFn_eq_map]
  rfl

namespace Sheet

variable {sheet : Sheet} {cell target : Address} {value : Float} {ancestors : List Address}
  {reference : String} {circle : Circle} {fault : Fault} {progress : Progress sheet.size}

def Balanced (sheet : Sheet) : Prop :=
  ∀ formula ∈ sheet.formulas, formula.Balanced

def Located (sheet : Sheet) : Prop :=
  ∀ formula ∈ sheet.formulas, ∀ text ∈ formula.references,
    ∃ target, Address.locate text sheet.rows sheet.cols = .ok target

/-- The value of a cell, when the cells of the sheet are given values row by row. -/
def valueAt (sheet : Sheet) (values : Fin sheet.size → Float) (cell : Address) : Float :=
  match sheet.index? cell with
  | some place => values place
  | none => 0

/-- The formula of each cell is the postorder of a tree, and the cell has the value of this
tree, where each reference has the value of the cell that it leads to. -/
def Solves (sheet : Sheet) (values : Fin sheet.size → Float) : Prop :=
  ∀ place : Fin sheet.size, ∃ (tree : Tree) (targets : List Address),
    tree.postorder = (sheet.formulas.get place).tokens ∧
    tree.references.map (Address.locate · sheet.rows sheet.cols) = targets.map .ok ∧
    tree.valueFor (targets.map (sheet.valueAt values)) = values place

theorem forall_formula_iff {P : Formula → Prop} :
    (∀ formula ∈ sheet.formulas, P formula) ↔
      ∀ cell, ∀ inside : sheet.Holds cell, P (sheet.site cell inside).formula := by
  constructor
  · intro h cell inside
    exact h _ (Vector.getElem_mem _)
  · intro h formula hformula
    obtain ⟨place, hplace, rfl⟩ := Vector.mem_iff_getElem.1 hformula
    have hsite := h (sheet.address place) (sheet.holds_address ⟨place, hplace⟩)
    simp only [site, sheet.index_address ⟨place, hplace⟩] at hsite
    exact hsite

theorem balanced_and_located_iff :
    sheet.Balanced ∧ sheet.Located ↔
      ∀ cell, ∀ inside : sheet.Holds cell, (sheet.site cell inside).fault? = none := by
  rw [Balanced, Located, forall_formula_iff, forall_formula_iff]
  constructor
  · rintro ⟨hbalanced, hlocated⟩ cell inside
    exact (Site.fault?_eq_none_iff _).2 ⟨hbalanced cell inside, hlocated cell inside⟩
  · intro h
    exact ⟨fun cell inside => ((Site.fault?_eq_none_iff _).1 (h cell inside)).1,
      fun cell inside => ((Site.fault?_eq_none_iff _).1 (h cell inside)).2⟩

/-- With formulas in order, only circles make an evaluation fail. -/
theorem direct_circular (hsites : ∀ cell, ∀ inside : sheet.Holds cell,
      (sheet.site cell inside).fault? = none) (inside : sheet.Holds cell)
    (hfailed : sheet.direct ancestors reference cell = .error fault) :
    ∃ circle, fault = .circular circle := by
  fun_induction direct sheet ancestors reference cell with
  | case1 ancestors reference cell inside' hmem =>
      cases hfailed
      exact ⟨_, rfl⟩
  | case2 ancestors reference cell inside' hnew hless ih =>
      rcases Site.evaluate_eq_error hfailed with
        hown | ⟨before, text, after, target, hsplit, hlocated, hdeeper, -⟩
      · rw [hsites cell inside'] at hown
        cases hown
      · exact ih target text (refers_of_split inside' hsplit hlocated).holds hdeeper
  | case3 ancestors reference cell houtside => exact absurd inside houtside

theorem reaches_of_isChain {cells : List Address} {first last : Address}
    (hchain : (first :: cells).IsChain sheet.Refers)
    (hlast : (first :: cells).getLast? = some last) : sheet.Reaches first last := by
  induction cells generalizing first with
  | nil =>
      cases hlast
      exact .refl first
  | cons next rest ih =>
      rw [List.isChain_cons_cons] at hchain
      rw [List.getLast?_cons_cons] at hlast
      exact .step hchain.1 (ih hchain.2 hlast)

theorem Closes.not_acyclic (h : sheet.Closes circle) : ¬sheet.Acyclic := by
  intro hacyclic
  obtain ⟨hlength, hstarts, hends, -, -, -, hrefers, -⟩ := h
  rcases hchain : circle.chain with _ | ⟨first, _ | ⟨next, rest⟩⟩
  · simp [hchain] at hlength
  · simp [hchain] at hlength
  · rw [hchain] at hstarts hends hrefers
    obtain rfl : first = circle.revisited := Option.some.inj hstarts
    rw [List.isChain_cons_cons] at hrefers
    rw [List.getLast?_cons_cons] at hends
    exact hacyclic _ next hrefers.1 (reaches_of_isChain hrefers.2 hends)

/-- All cells have values exactly if the formulas are in order and do not refer
around in a circle. -/
theorem forall_hasValue_iff :
    (∀ cell, sheet.Holds cell → sheet.HasValue cell) ↔
      sheet.Balanced ∧ sheet.Located ∧ sheet.Acyclic := by
  rw [← and_assoc, balanced_and_located_iff]
  constructor
  · intro h
    refine ⟨?_, ?_⟩
    · intro cell inside
      obtain ⟨value, hdenotes⟩ := h cell inside
      exact hdenotes.fault?_eq_none inside
    · intro cell next hrefers
      exact (h cell hrefers.holds_source).not_reaches hrefers
  · rintro ⟨hsites, hacyclic⟩ cell inside
    have hanswer := sheet.consistent_fresh.compute_eq_direct cell ""
    cases hdirect : sheet.direct [] "" cell with
    | ok value =>
        rw [hdirect] at hanswer
        exact ⟨value, (sheet.consistent_fresh.compute_eq_ok_iff .empty).1 hanswer⟩
    | error fault =>
        obtain ⟨circle, rfl⟩ := direct_circular hsites inside hdirect
        exact absurd hacyclic (direct_closes (sheet.descends_nil "" cell) hdirect).not_acyclic

theorem holds_of_mem_addresses (h : cell ∈ sheet.addresses) : sheet.Holds cell := by
  obtain ⟨place, hplace, rfl⟩ := List.mem_map.1 h
  exact sheet.holds_address ⟨place, List.mem_range.1 hplace⟩

theorem valueAt_eq (values : Fin sheet.size → Float) (inside : sheet.Holds cell) :
    sheet.valueAt values cell = values (sheet.index cell inside) := by
  simp [valueAt, index?, inside]

/-- Values fit all formulas if each formula, evaluated with them, comes to the value of its
cell. -/
theorem solves_iff {values : Fin sheet.size → Float} :
    sheet.Solves values ↔ ∀ cell, ∀ inside : sheet.Holds cell,
      ((sheet.site cell inside).evaluate (.ofValues (sheet.valueAt values)) ()).1 =
        .ok (values (sheet.index cell inside)) := by
  constructor
  · intro h cell inside
    exact Site.evaluate_ofValues_eq_ok_iff.2 (h (sheet.index cell inside))
  · intro h place
    have hsite := Site.evaluate_ofValues_eq_ok_iff.1
      (h (sheet.address place) (sheet.holds_address place))
    simp only [site, index_address] at hsite
    exact hsite

/-- Values that fit all formulas are the ones that the formulas determine. -/
theorem Denotes.eq_valueAt (h : sheet.Denotes cell value) {values : Fin sheet.size → Float}
    (hsolves : sheet.Solves values) : sheet.valueAt values cell = value := by
  induction h with
  | @intro cell value inside operandValues operands evaluated ih =>
      have hfits := solves_iff.1 hsolves cell inside
      rw [evaluate_ofValues_congr inside (sheet.valueAt values) operandValues ih,
        evaluated] at hfits
      rw [valueAt_eq values inside]
      exact (Except.ok.inj hfits).symm

/-- The values that the formulas determine are the only ones that fit them all. -/
theorem solves_iff_eq {values : Fin sheet.size → Float}
    (hvalues : ∀ place : Fin sheet.size, sheet.Denotes (sheet.address place) (values place))
    (others : Fin sheet.size → Float) : sheet.Solves others ↔ others = values := by
  constructor
  · intro hsolves
    funext place
    rw [← (hvalues place).eq_valueAt hsolves, valueAt_eq others (sheet.holds_address place),
      index_address]
  · rintro rfl
    refine solves_iff.2 fun cell inside => ?_
    have hdenotes := hvalues (sheet.index cell inside)
    rw [address_index] at hdenotes
    cases hdenotes with
    | intro _ operandValues operands evaluated =>
        rw [evaluate_ofValues_congr inside (sheet.valueAt others) operandValues, evaluated]
        intro target hrefers
        have htarget := hvalues (sheet.index target hrefers.holds)
        rw [address_index] at htarget
        rw [valueAt_eq others hrefers.holds]
        exact htarget.unique (operands target hrefers)

theorem done_of_compute_eq_ok {run later : Run sheet} (inside : sheet.Holds cell)
    (hok : sheet.compute cell run = (.ok value, later)) :
    later.Done (sheet.index cell inside) := by
  rcases sheet.compute_cases cell run with
    houtside | ⟨_, ⟨known, hknown⟩ | hguarded | hopen⟩
  · exact absurd inside houtside
  · rw [compute_of_done inside hknown] at hok
    cases hok
    simp [Run.Done, hknown, Mark.isDone]
  · rw [compute_of_guarded inside hguarded] at hok
    cases hok
  · cases hbody : (sheet.computeBody cell inside run).1 with
    | error fault =>
        rw [compute_error_of_open hopen hbody] at hok
        cases hok
    | ok found =>
        rw [compute_ok_of_open hopen hbody] at hok
        cases hok
        simp [Run.Done, Run.finish, Mark.isDone]

/-- Evaluating cells one after the other, with success, gives them all their values
and takes no value away. -/
theorem done_of_computeEach_eq_ok {cells : List Address}
    (hok : (sheet.computeEach cells progress).1 = .ok ()) (place : Fin sheet.size)
    (hplace : (progress.mark place).isDone = true ∨ sheet.address place ∈ cells) :
    ((sheet.computeEach cells progress).2.mark place).isDone = true := by
  induction cells generalizing progress with
  | nil => exact hplace.resolve_right List.not_mem_nil
  | cons first rest ih =>
      have hleads := sheet.leads_compute first ⟨progress, .empty⟩
      rw [Sheet.computeEach] at hok ⊢
      rcases hfirst : sheet.compute first ⟨progress, .empty⟩ with ⟨fault | value, later⟩
      · rw [hfirst] at hok
        cases hok
      · rw [hfirst] at hok hleads
        apply ih hok
        rcases hplace with hdone | hmem
        · exact Or.inl (hleads.1 place hdone)
        · rcases List.mem_cons.1 hmem with hsame | hrest
          · subst hsame
            have hdone := done_of_compute_eq_ok (sheet.holds_address place) hfirst
            rw [index_address] at hdone
            exact Or.inl hdone
          · exact Or.inr hrest

theorem complete_of_computeAll_eq_ok (hok : (sheet.computeAll progress).1 = .ok ()) :
    (sheet.computeAll progress).2.Complete := by
  intro place
  exact done_of_computeEach_eq_ok hok place (Or.inr (mem_addresses (sheet.holds_address place)))

/-- The values that are there after a calculation solve the sheet, and no others do. -/
theorem Consistent.values?_computeAll (h : sheet.Consistent progress)
    (hok : (sheet.computeAll progress).1 = .ok ()) :
    ∃ values, (sheet.computeAll progress).2.values? = some (List.ofFn values) ∧
      ∀ others, sheet.Solves others ↔ others = values := by
  have hmarks : ∀ place, ∃ value, (sheet.computeAll progress).2.mark place = .done value := by
    intro place
    exact Mark.isDone_iff.1 (complete_of_computeAll_eq_ok hok place)
  choose values hvalues using hmarks
  refine ⟨values, Progress.values?_eq_some hvalues, solves_iff_eq ?_⟩
  intro place
  exact (h.computeEach sheet.addresses).sound.denotes place (values place) (hvalues place)

theorem Consistent.computeAll_eq_ok_iff (h : sheet.Consistent progress) :
    (sheet.computeAll progress).1 = .ok () ↔
      ∀ cell, sheet.Holds cell → sheet.HasValue cell := by
  rcases h.computeEach_answer sheet.addresses "" with
    ⟨hall, hok⟩ | ⟨before, cell, after, fault, hsplit, -, hfault, herror⟩
  · exact ⟨fun _ cell inside => hall cell (mem_addresses inside), fun _ => hok⟩
  · constructor
    · intro hok
      cases hok.symm.trans herror
    · intro hall
      have hmem : cell ∈ sheet.addresses := by simp [hsplit]
      obtain ⟨value, hdenotes⟩ := hall cell (holds_of_mem_addresses hmem)
      have hanswer := h.compute_eq_direct cell ""
      rw [hfault, (h.compute_eq_ok_iff .empty).2 hdenotes] at hanswer
      cases hanswer

/-- A calculation succeeds exactly if the formulas are complete, the references lead
to cells of the sheet and none of them around in a circle.  The values that are there
then are the only ones that fit all formulas.  If circles are all that is wrong, one
of them is reported. -/
theorem computeAll_fresh (sheet : Sheet) :
    ((sheet.computeAll (.fresh _)).1 = .ok () ↔
      sheet.Balanced ∧ sheet.Located ∧ sheet.Acyclic) ∧
    ((sheet.computeAll (.fresh _)).1 = .ok () →
      (sheet.computeAll (.fresh _)).2.Complete ∧
      ∃ values, (sheet.computeAll (.fresh _)).2.values? = some (List.ofFn values) ∧
        ∀ others, sheet.Solves others ↔ others = values) ∧
    (sheet.Balanced → sheet.Located → ¬sheet.Acyclic →
      ∃ circle, (sheet.computeAll (.fresh _)).1 = .error (.circular circle)) := by
  have hsucceeds := sheet.consistent_fresh.computeAll_eq_ok_iff.trans forall_hasValue_iff
  refine ⟨hsucceeds, ?_, ?_⟩
  · intro hok
    exact ⟨complete_of_computeAll_eq_ok hok, sheet.consistent_fresh.values?_computeAll hok⟩
  · intro hbalanced hlocated hcircles
    have hsites := balanced_and_located_iff.1 ⟨hbalanced, hlocated⟩
    rcases sheet.consistent_fresh.computeEach_answer sheet.addresses "" with
      ⟨-, hok⟩ | ⟨before, cell, after, fault, hsplit, -, hfault, herror⟩
    · exact absurd (hsucceeds.1 hok).2.2 hcircles
    · have hmem : cell ∈ sheet.addresses := by simp [hsplit]
      obtain ⟨circle, rfl⟩ := direct_circular hsites (holds_of_mem_addresses hmem) hfault
      exact ⟨circle, herror⟩

end Sheet

end PostfixSheet
