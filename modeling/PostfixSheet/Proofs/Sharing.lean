/-
Sheets that share formulas.

What a cell comes to depends on the formulas that it reaches and on nothing else.  A sheet
that is extended to the right and below, and changed wherever the cell does not reach, keeps
the value of the cell; in a sheet of the same size it keeps the fault too.
-/
import PostfixSheet.Proofs.Balance
import PostfixSheet.Proofs.Directness
import PostfixSheet.Proofs.Layout
import PostfixSheet.Proofs.Mirroring

namespace PostfixSheet

namespace Sheet

variable {sheet larger : Sheet} {cell target : Address} {value : Float}
  {ancestors : List Address}

/-- All cells that are reached from a cell have the same formulas in another sheet. -/
def Shares (sheet larger : Sheet) (cell : Address) : Prop :=
  ∀ target, sheet.Reaches cell target → larger.formula? target = sheet.formula? target

theorem Shares.of_refers (h : sheet.Shares larger cell) (hrefers : sheet.Refers cell target) :
    sheet.Shares larger target :=
  fun other hreaches => h other (.step hrefers hreaches)

theorem holds_of_formula?_eq {other : Sheet} (h : other.formula? cell = sheet.formula? cell)
    (inside : sheet.Holds cell) : other.Holds cell := by
  rw [formula?_eq_some inside] at h
  by_contra houtside
  simp [formula?, index?, houtside] at h

theorem site_formula_eq {other : Sheet} (h : other.formula? cell = sheet.formula? cell)
    (inside : sheet.Holds cell) (inside' : other.Holds cell) :
    (other.site cell inside').formula = (sheet.site cell inside).formula := by
  rw [formula?_eq_some inside, formula?_eq_some inside'] at h
  exact Option.some.inj h

/-- A larger sheet with the same formula in a cell finds the same cells for its references,
if these lead to cells of the smaller one. -/
theorem locate_eq_of_fault?_eq_none (hrows : sheet.rows ≤ larger.rows)
    (hcols : sheet.cols ≤ larger.cols) {inside : sheet.Holds cell}
    (hfault : (sheet.site cell inside).fault? = none) {text : String}
    (htext : text ∈ (sheet.site cell inside).formula.references) :
    Address.locate text larger.rows larger.cols = Address.locate text sheet.rows sheet.cols := by
  obtain ⟨target, hlocated⟩ := ((Site.fault?_eq_none_iff _).1 hfault).2 text htext
  change Address.locate text sheet.rows sheet.cols = .ok target at hlocated
  rw [hlocated, Address.locate_mono hrows hcols hlocated]

/-- A formula of which all references are found alike has one value at both sites. -/
theorem evaluate_of_locate_eq (site image : Site) (hcell : image.cell = site.cell)
    (hformula : image.formula = site.formula)
    (hlocated : ∀ text ∈ site.formula.references,
      Address.locate text image.rows image.cols = Address.locate text site.rows site.cols)
    {values : Address → Float} (h : (site.evaluate (.ofValues values) ()).1 = .ok value) :
    (image.evaluate (.ofValues values) ()).1 = .ok value := by
  have htokens : List.Forall₂ (Token.Mirrors id site image) site.formula.tokens
      image.formula.tokens := by
    rw [hformula, List.forall₂_same]
    intro token htoken
    refine token.mirrors_self fun text htext => hlocated text ?_
    exact Formula.mem_references.2 (htext ▸ htoken)
  have hagree := Site.evaluate_mirrors (f := .ofValues values) (g := .ofValues values)
    (R := fun _ _ => True) (s := ()) (t := ()) site image hcell
    (fun _ _ target _ _ _ _ => ⟨.ok (values target), trivial⟩) htokens trivial
  exact hagree.1.eq_ok_iff.1 h

/-- A value of a cell is its value in every larger sheet that shares the formulas. -/
theorem Denotes.of_shares (hrows : sheet.rows ≤ larger.rows) (hcols : sheet.cols ≤ larger.cols)
    (h : sheet.Denotes cell value) (hshares : sheet.Shares larger cell) :
    larger.Denotes cell value := by
  induction h with
  | @intro cell value inside values operands evaluated ih =>
      have hsame := hshares cell (.refl cell)
      have inside' := holds_of_formula?_eq hsame inside
      have hformula := site_formula_eq hsame inside inside'
      have hlocated : ∀ text ∈ (sheet.site cell inside).formula.references,
          Address.locate text larger.rows larger.cols =
            Address.locate text sheet.rows sheet.cols := fun text htext =>
        locate_eq_of_fault?_eq_none hrows hcols (Site.fault?_eq_none_of_evaluate evaluated) htext
      refine .intro inside' values ?_ (evaluate_of_locate_eq (sheet.site cell inside)
        (larger.site cell inside') rfl hformula hlocated evaluated)
      intro target hrefers
      obtain ⟨text, htext, hfound⟩ := (refers_iff inside').1 hrefers
      rw [hformula] at htext
      have hrefers' : sheet.Refers cell target :=
        (refers_iff inside).2 ⟨text, htext, hlocated text htext ▸ hfound⟩
      exact ih target hrefers' (hshares.of_refers hrefers')

/-- In sheets of one size the fault of a cell depends on the formulas that it reaches, too. -/
theorem direct_of_shares {other : Sheet} (hrows : other.rows = sheet.rows)
    (hcols : other.cols = sheet.cols) {reference : String}
    (habove : ∀ ancestor ∈ ancestors, other.formula? ancestor = sheet.formula? ancestor)
    (hshares : sheet.Shares other cell) :
    other.direct ancestors reference cell = sheet.direct ancestors reference cell := by
  fun_induction direct sheet ancestors reference cell with
  | case1 ancestors reference cell inside hmem =>
      obtain ⟨last, hlast⟩ : ∃ last, ancestors.getLast? = some last :=
        ⟨_, List.getLast?_eq_some_getLast (List.ne_nil_of_mem hmem)⟩
      have hcell := habove cell hmem
      have htrigger := habove last (List.mem_of_getLast? hlast)
      rw [direct_of_mem (holds_of_formula?_eq hcell inside) hmem]
      simp only [circleFrom, hlast, Option.getD_some, textOf, hcell, htrigger]
  | case2 ancestors reference cell inside hnew hless ih =>
      have hsame := hshares cell (.refl cell)
      have inside' := holds_of_formula?_eq hsame inside
      have hsite : other.site cell inside' = sheet.site cell inside := by
        have hformula := site_formula_eq hsame inside inside'
        simp only [site] at hformula ⊢
        rw [hformula, hrows, hcols]
      rw [direct_of_not_mem inside' hnew, hsite]
      refine (Site.evaluate_agree _ (R := fun _ _ _ => True) (E := fun _ _ _ => True)
        ?_ (fun _ _ _ _ _ _ => trivial) trivial).answer
      intro before text after target _ _ hsplit hlocated _
      have hrefers := refers_of_split inside hsplit hlocated
      refine ⟨ih target text ?_ (hshares.of_refers hrefers), fun _ _ => trivial,
        fun _ _ => trivial⟩
      intro ancestor hancestor
      rcases List.mem_append.1 hancestor with hold | hself
      · exact habove ancestor hold
      · exact List.mem_singleton.1 hself ▸ hsame
  | case3 ancestors reference cell houtside =>
      rw [direct_of_not_holds, hrows, hcols]
      rwa [Holds, hrows, hcols]

/-- A sheet that goes further to the right and below, and has the same formulas wherever the
cell leads to, gives the cell the same value, whatever its other cells hold.  In a sheet of
the same size a cell without a value fails with the same fault. -/
theorem compute_of_shares (hrows : sheet.rows ≤ larger.rows) (hcols : sheet.cols ≤ larger.cols)
    (hshares : ∀ target, sheet.Reaches cell target →
      larger.formula? target = sheet.formula? target) :
    (∀ value, (sheet.compute cell ⟨.fresh _, .empty⟩).1 = .ok value →
      (larger.compute cell ⟨.fresh _, .empty⟩).1 = .ok value) ∧
    (larger.rows = sheet.rows → larger.cols = sheet.cols →
      (larger.compute cell ⟨.fresh _, .empty⟩).1 =
        (sheet.compute cell ⟨.fresh _, .empty⟩).1) := by
  constructor
  · intro value hvalue
    have hdenotes := (sheet.consistent_fresh.compute_eq_ok_iff .empty).1 hvalue
    exact (larger.consistent_fresh.compute_eq_ok_iff .empty).2
      (hdenotes.of_shares hrows hcols hshares)
  · intro hrows hcols
    rw [larger.consistent_fresh.compute_eq_direct cell "",
      sheet.consistent_fresh.compute_eq_direct cell "",
      direct_of_shares hrows hcols (fun _ hfalse => absurd hfalse List.not_mem_nil) hshares]

namespace SharingWitness

def small : Sheet :=
  ofFormulas 2 1 #v[⟨"B1 3 +"⟩, ⟨"4"⟩] (by decide)

/-- The cells of the second column have no values. -/
def wide : Sheet :=
  ofFormulas 2 2 #v[⟨"B1 3 +"⟩, ⟨"A2"⟩, ⟨"4"⟩, ⟨"A1 +"⟩] (by decide)

/-- The first two cells refer to each other. -/
def tied : Sheet :=
  ofFormulas 3 1 #v[⟨"B1 3 +"⟩, ⟨"A1"⟩, ⟨"5"⟩] (by decide)

/-- So does the last one here. -/
def tiedTwice : Sheet :=
  ofFormulas 3 1 #v[⟨"B1 3 +"⟩, ⟨"A1"⟩, ⟨"B1 C1 -"⟩] (by decide)

theorem shares_of_mem (cells : List Address) (hcell : cell ∈ cells)
    (hclosed : ∀ source ∈ cells, ∀ formula ∈ sheet.formula? source, ∀ text ∈ formula.references,
      ∀ target ∈ (Address.locate text sheet.rows sheet.cols).toOption, target ∈ cells)
    (hsame : ∀ target ∈ cells, larger.formula? target = sheet.formula? target) :
    sheet.Shares larger cell := by
  intro target hreaches
  refine hsame target ?_
  induction hreaches with
  | refl _ => exact hcell
  | step hrefers _ ih =>
      obtain ⟨formula, text, hformula, htoken, hlocated⟩ := hrefers
      refine ih (hclosed _ hcell formula hformula text (Formula.mem_references.2 htoken) _ ?_)
      simp [hlocated, Except.toOption]

/-- The first cell has the value 7 in both sheets, of which the wide one cannot be calculated
as a whole; and it closes the same circle in the two sheets of one size. -/
theorem compute_of_shares_wide :
    (wide.computeAll (.fresh _)).1.toOption = none ∧
      (wide.compute ⟨0, 0⟩ ⟨.fresh _, .empty⟩).1 = .ok 7 ∧
      ((tied.compute ⟨0, 0⟩ ⟨.fresh _, .empty⟩).1.toOption = none ∧
        (tiedTwice.compute ⟨0, 0⟩ ⟨.fresh _, .empty⟩).1 =
          (tied.compute ⟨0, 0⟩ ⟨.fresh _, .empty⟩).1) := by
  have hshares : small.Shares wide ⟨0, 0⟩ :=
    shares_of_mem [⟨0, 0⟩, ⟨1, 0⟩] (by decide) (by decide +kernel) (by decide +kernel)
  have htied : tied.Shares tiedTwice ⟨0, 0⟩ :=
    shares_of_mem [⟨0, 0⟩, ⟨1, 0⟩] (by decide) (by decide +kernel) (by decide +kernel)
  have hvalue : (small.compute ⟨0, 0⟩ ⟨.fresh _, .empty⟩).1 = .ok 7 := by decide +kernel
  refine ⟨by decide +kernel, ?_, by decide +kernel, ?_⟩
  · exact (compute_of_shares (by decide) (by decide) hshares).1 7 hvalue
  · exact (compute_of_shares (by decide) (by decide) htied).2 rfl rfl

end SharingWitness

end Sheet

end PostfixSheet
