/-
What becomes of a trail.

A cell is evaluated on a trail of cells that have been entered before it.  If it finds a
value, the trail is as it was, and no cell has been left behind.  If it fails, what has come
to the trail is the explanation: the cells from the one that was asked for down to the one at
fault, each at the reference that leads to the next.
-/
import PostfixSheet.History
import PostfixSheet.Proofs.Descent

namespace PostfixSheet

namespace Sheet

variable {sheet : Sheet} {cell : Address} {fault : Fault} {trail : Trail}
  {earlier later : Progress sheet.size} {chain : List Address} {run last : Run sheet}

/-- The cells of a chain explain a fault: new to the trail, from the cell that was asked for
down to the cell at fault, each entered and at its reference to the next.  All other cells
are as they were, or have got their values. -/
structure Explains (sheet : Sheet) (cell : Address) (fault : Fault) (trail : Trail)
    (earlier later : Progress sheet.size) (chain : List Address) : Prop where
  starts : chain.head? = some cell
  ends : chain.getLast? = some fault.cell
  nodup : chain.Nodup
  new : ∀ other ∈ chain, other ∉ trail
  started : ∀ other ∈ chain, ∃ inside : sheet.Holds other,
    later.mark (sheet.index other inside) = .started
  linked : chain.IsChain fun source target => ∃ inside : sheet.Holds source,
    ∃ text ∈ (sheet.site source inside).formula.references,
      later.lastReference (sheet.index source inside) = some text ∧
      Address.locate text sheet.rows sheet.cols = .ok target
  others : ∀ place : Fin sheet.size, sheet.address place ∉ chain →
    later.entry place = earlier.entry place ∨
      earlier.stage place ≠ .done ∧ later.stage place = .done

theorem StopsAt.mem_references {target : Address} {text : String}
    (h : sheet.StopsAt cell text target) (inside : sheet.Holds cell) :
    text ∈ (sheet.site cell inside).formula.references := by
  obtain ⟨formula, before, after, hformula, hsplit, -⟩ := h
  obtain rfl := Option.some.inj ((formula?_eq_some inside).symm.trans hformula)
  simp [hsplit]

theorem StopsAt.located {target : Address} {text : String}
    (h : sheet.StopsAt cell text target) :
    Address.locate text sheet.rows sheet.cols = .ok target := by
  obtain ⟨-, -, -, -, -, hlocated, -⟩ := h
  exact hlocated

/-- What a failure leaves behind explains it. -/
theorem Stranded.explains (h : sheet.Stranded run last chain) (hstarts : chain.head? = some cell)
    (hlast : last.trail.last? = some fault.cell) (hagreeing : run.progress.Agreeing)
    (hagreeing' : last.progress.Agreeing) :
    sheet.Explains cell fault run.trail run.progress last.progress chain := by
  constructor
  case starts => exact hstarts
  case ends => exact (h.getLast?_eq hstarts).trans hlast
  case nodup => exact h.nodup
  case new => exact fun other hother => h.not_mem hother
  case started => exact h.started
  case linked =>
    refine h.linked.imp ?_
    rintro source target ⟨text, hstops, inside, hreference⟩
    exact ⟨inside, text, hstops.mem_references inside, hreference, hstops.located⟩
  case others =>
    intro place hoff
    rcases h.advances place hoff with ⟨hmark, hreference⟩ | ⟨hpending, hdone⟩
    · exact Or.inl ((hagreeing' place).ext (hagreeing place) hmark hreference)
    · refine Or.inr ⟨mt (hagreeing place).isDone_mark_iff.2 ?_,
        (hagreeing' place).isDone_mark_iff.1 hdone⟩
      exact Bool.eq_false_iff.1 hpending

/-- A cell that is evaluated on a trail of entered cells, after any calls, restores the trail
and leaves no further cell behind if it finds a value.  If it fails, the trail goes on with a
chain that explains the fault. -/
theorem trail_compute_afterAll (calls : List Call) (inside : sheet.Holds cell)
    (hnew : cell ∉ trail) (hentered : Entered (⟨sheet.afterAll calls, trail⟩ : Run sheet)) :
    (∀ value later, sheet.compute cell ⟨sheet.afterAll calls, trail⟩ = (.ok value, later) →
      later.trail = trail ∧
        ∀ place, later.progress.mark place = .started →
          (sheet.afterAll calls).mark place = .started) ∧
    ∀ fault later, sheet.compute cell ⟨sheet.afterAll calls, trail⟩ = (.error fault, later) →
      ∃ chain, later.trail.toList = trail.toList ++ chain ∧
        sheet.Explains cell fault trail (sheet.afterAll calls) later.progress chain := by
  have hregular := sheet.regular_afterAll calls
  constructor
  · intro value later hcompute
    have hok := congrArg Prod.fst hcompute
    have htrail := (hentered.compute hregular.consistent hok).1
    have hadvances : ∀ place, Advances (sheet.afterAll calls)
        (sheet.compute cell ⟨sheet.afterAll calls, trail⟩).2.progress place :=
      Regular.advances hregular hok
    rw [hcompute] at htrail hadvances
    refine ⟨htrail, ?_⟩
    intro place hstarted
    rcases hadvances place with ⟨hmark, -⟩ | ⟨-, hdone⟩
    · exact hmark.symm.trans hstarted
    · rw [hstarted] at hdone
      cases hdone
  · intro fault later hcompute
    obtain ⟨chain, hstranded, hlast, hhead⟩ :=
      compute_stranded inside hregular hentered fault (congrArg Prod.fst hcompute)
    have hagreeing := sheet.agreeing_afterAll calls
    have hagreeing' := agreeing_compute cell ⟨sheet.afterAll calls, trail⟩ hagreeing
    rw [hcompute] at hstranded hlast hagreeing'
    have hstarts := hhead.resolve_right fun hnone => hnew hnone.2
    exact ⟨chain, hstranded.trail_eq, hstranded.explains hstarts hlast hagreeing hagreeing'⟩

namespace TrailWitness

/-- The second, third and fourth cells refer around in a circle, into which the fifth one
leads. -/
def row : Sheet :=
  ofFormulas 1 6 #v[⟨"3"⟩, ⟨"A1 A3 *"⟩, ⟨"A1 A4 +"⟩, ⟨"A2"⟩, ⟨"A4 ++"⟩, ⟨"A1 2 /"⟩] (by decide)

def ring : Circle where
  trigger := ⟨0, 3⟩
  triggerText := "A2"
  reference := "A2"
  revisited := ⟨0, 1⟩
  revisitedText := "A1 A3 *"
  chain := [⟨0, 1⟩, ⟨0, 2⟩, ⟨0, 3⟩, ⟨0, 1⟩]

/-- What a failure of the fifth cell has left behind, with a trail of that cell, one that has
its value and one that is not in the sheet. -/
def start : Run row :=
  ⟨row.afterAll [.cell ⟨0, 4⟩ .empty], ((Trail.empty.push ⟨0, 0⟩).push ⟨0, 4⟩).push ⟨9, 9⟩⟩

theorem entered_start : Entered start := by
  intro other hother
  have hlisted : other ∈ [(⟨9, 9⟩ : Address), ⟨0, 4⟩, ⟨0, 0⟩] :=
    Trail.mem_latestFirst.2 hother
  simp only [List.mem_cons, List.not_mem_nil, or_false] at hlisted
  rcases hlisted with rfl | rfl | rfl <;> decide +kernel

/-- The last cell finds its value and restores the trail; the second one goes around the
circle and leaves it at the end of the trail. -/
theorem trail_compute_afterAll_row :
    Entered start ∧ start.progress.entries.toList.map Entry.stage =
        [.done, .started, .started, .started, .started, .untouched] ∧
      (∃ later, row.compute ⟨0, 5⟩ start = (.ok 1.5, later) ∧ later.trail = start.trail) ∧
      ∃ later, row.compute ⟨0, 1⟩ start = (.error (.circular ring), later) ∧
        later.trail.toList = [⟨0, 0⟩, ⟨0, 4⟩, ⟨9, 9⟩, ⟨0, 1⟩, ⟨0, 2⟩, ⟨0, 3⟩] ∧
        row.Explains ⟨0, 1⟩ (.circular ring) start.trail start.progress later.progress
          [⟨0, 1⟩, ⟨0, 2⟩, ⟨0, 3⟩] := by
  refine ⟨entered_start, by decide +kernel, ?_, ?_⟩
  · have hcompute : row.compute ⟨0, 5⟩ start = (.ok 1.5, (row.compute ⟨0, 5⟩ start).2) :=
      Prod.ext (by decide +kernel) rfl
    have inside : row.Holds ⟨0, 5⟩ := by decide
    have hnew : (⟨0, 5⟩ : Address) ∉ start.trail := by decide
    obtain ⟨hok, -⟩ := trail_compute_afterAll [.cell ⟨0, 4⟩ .empty] inside hnew entered_start
    exact ⟨_, hcompute, (hok _ _ hcompute).1⟩
  · have hcompute : row.compute ⟨0, 1⟩ start =
        (.error (.circular ring), (row.compute ⟨0, 1⟩ start).2) :=
      Prod.ext (by decide +kernel) rfl
    have htrail : (row.compute ⟨0, 1⟩ start).2.trail.toList =
        [⟨0, 0⟩, ⟨0, 4⟩, ⟨9, 9⟩] ++ [⟨0, 1⟩, ⟨0, 2⟩, ⟨0, 3⟩] := by decide +kernel
    have inside : row.Holds ⟨0, 1⟩ := by decide
    have hnew : (⟨0, 1⟩ : Address) ∉ start.trail := by decide
    obtain ⟨-, hfailed⟩ :=
      trail_compute_afterAll [.cell ⟨0, 4⟩ .empty] inside hnew entered_start
    obtain ⟨chain, hchain, hexplains⟩ := hfailed _ _ hcompute
    obtain rfl : chain = [⟨0, 1⟩, ⟨0, 2⟩, ⟨0, 3⟩] :=
      List.append_cancel_left (hchain.symm.trans htrail)
    exact ⟨_, hcompute, htrail, hexplains⟩

end TrailWitness

end Sheet

end PostfixSheet
