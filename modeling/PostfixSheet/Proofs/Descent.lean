/-
What a failed evaluation leaves behind.

A failure is not undone.  The trail then ends in a chain of cells that have been entered,
each of them at its reference to the next, down to the cell at fault.  All other cells
are as they were, or have got their values on the way.
-/
import PostfixSheet.Proofs.Records
import PostfixSheet.Proofs.Workload

namespace PostfixSheet

/-- The fault of a formula by itself is put down to its cell. -/
theorem Site.cell_of_faultFrom? {site : Site} {tokens : List Token} {depth : Nat} {fault : Fault}
    (h : site.faultFrom? tokens depth = some fault) : fault.cell = site.cell := by
  fun_induction faultFrom? site tokens depth with
  | case1 => cases h
  | case8 text rest depth reason located =>
      cases h
      cases reason <;> rfl
  | case3 _ _ _ ih | case4 _ _ _ ih | case6 _ _ _ ih | case9 _ _ _ _ _ ih => exact ih h
  | _ =>
      cases h
      rfl

namespace Sheet

variable {sheet : Sheet} {cell target : Address} {value : Float} {text : String}
  {earlier later : Progress sheet.size} {place : Fin sheet.size} {run current next : Run sheet}
  {chain : List Address}

/-- References are followed from a cell whose formula is being run. -/
theorem Regular.follow (h : sheet.Regular current.progress)
    (hstarted : current.progress.mark place = .started) (text : String) :
    sheet.Regular (current.follow place text).progress :=
  ⟨h.consistent.follow place text, h.recorded.follow hstarted text⟩

def Advances (earlier later : Progress sheet.size) (place : Fin sheet.size) : Prop :=
  (later.mark place = earlier.mark place ∧
    later.lastReference place = earlier.lastReference place) ∨
  ((earlier.mark place).isDone = false ∧ (later.mark place).isDone = true)

theorem Advances.trans {middle : Progress sheet.size} (h : Advances earlier middle place)
    (h' : Advances middle later place) : Advances earlier later place := by
  rcases h with ⟨hmark, hlast⟩ | ⟨hpending, hdone⟩
  · rcases h' with ⟨hmark', hlast'⟩ | ⟨hpending, hdone⟩
    · exact Or.inl ⟨hmark'.trans hmark, hlast'.trans hlast⟩
    · exact Or.inr ⟨hmark ▸ hpending, hdone⟩
  · rcases h' with ⟨hmark', -⟩ | ⟨-, hdone'⟩
    · exact Or.inr ⟨hpending, hmark'.symm ▸ hdone⟩
    · exact Or.inr ⟨hpending, hdone'⟩

theorem Advances.follow (h : Advances earlier current.progress place) {source : Fin sheet.size}
    (hne : place ≠ source) (text : String) :
    Advances earlier (current.follow source text).progress place := by
  refine h.trans (Or.inl ⟨?_, ?_⟩)
  · rw [Run.follow, Progress.mark_follow]
  · rw [Run.follow, Progress.lastReference_follow, if_neg hne.symm]

/-- Evaluating a cell with a value changes the cells that get their values, and no
other record. -/
theorem Regular.advances (h : sheet.Regular run.progress)
    (hok : (sheet.compute cell run).1 = .ok value) (place : Fin sheet.size) :
    Advances run.progress (sheet.compute cell run).2.progress place := by
  have hlater := h.compute cell
  have hdenotes := (consistent_compute cell run h.consistent).2 value hok
  cases hmark : (run.progress.mark place).isDone with
  | true =>
      obtain ⟨kept, hkept⟩ := Mark.isDone_iff.1 hmark
      have hstill := h.consistent.done_compute hkept cell
      refine Or.inl ⟨hstill.trans hkept.symm, ?_⟩
      rw [h.recorded.done place hmark, hlater.recorded.done place (by rw [hstill]; rfl)]
  | false =>
      obtain ⟨next, heq, hsettles, -⟩ :=
        compute_settles hdenotes run (h.consistent.clear ⟨value, hdenotes⟩)
      rw [heq]
      by_cases hreaches : sheet.Reaches cell (sheet.address place)
      · exact Or.inr ⟨hmark, hsettles.done hreaches⟩
      · exact Or.inl ⟨hsettles.mark_eq place hreaches, hsettles.lastReference_eq place hreaches⟩

/-- No cell on the trail is untouched. -/
def Entered (run : Run sheet) : Prop :=
  ∀ other ∈ run.trail, ∀ inside : sheet.Holds other,
    run.progress.mark (sheet.index other inside) ≠ .untouched

theorem entered_empty (progress : Progress sheet.size) : Entered (⟨progress, .empty⟩ : Run sheet) :=
  fun other hother => absurd hother (Trail.not_mem_empty other)

/-- A cell with a value restores the trail, if those cells on the trail that it reaches
have their values. -/
theorem trail_compute_of_hasValue (hvalue : sheet.HasValue cell) (run : Run sheet)
    (hclear : sheet.Clear cell run.progress)
    (hdone : ∀ other ∈ run.trail, ∀ inside : sheet.Holds other, sheet.Reaches cell other →
      run.Done (sheet.index other inside)) :
    (sheet.compute cell run).2.trail = run.trail := by
  refine hvalue.compute_induction
    (motive := fun cell run =>
      (∀ other ∈ run.trail, ∀ inside : sheet.Holds other, sheet.Reaches cell other →
        run.Done (sheet.index other inside)) → (sheet.compute cell run).2.trail = run.trail)
    ?done ?entered run hclear hdone
  case done =>
    intro cell run hsame _
    rw [hsame]
  case entered =>
    intro cell value inside run hdenotes hclear hopen ih hdone
    have hnew : cell ∉ run.trail := fun hlisted =>
      hopen.pending (hdone cell hlisted inside (.refl cell))
    obtain ⟨last, hlater, -, htrail, -⟩ := compute_of_settling hdenotes hclear hopen
      (J := fun _ current => current.trail = run.trail.push cell ∧
        ∀ place, run.Done place → current.Done place)
      ⟨rfl, fun place => (Run.done_enter hopen.pending place).2⟩ (by
        rintro before text target current next hrefers - ⟨htrail, hkept⟩ hclear rfl -
        have hnext := ih target hrefers _ hclear (by
          intro other hother hholds hreaches
          have hlisted : other ∈ run.trail.push cell := htrail ▸ hother
          rcases Trail.mem_push.1 hlisted with rfl | hold
          · exact absurd hreaches (hdenotes.not_reaches hrefers)
          · have hbefore := hkept _ (hdone other hold hholds (.step hrefers hreaches))
            exact (current.leads_follow _ text).1 _ hbefore)
        refine ⟨hnext.trans htrail, fun place hplace => ?_⟩
        exact (sheet.leads_compute target _).1 place
          ((current.leads_follow _ text).1 place (hkept place hplace)))
    rw [hlater]
    simp [Run.finish, htrail, Trail.pop_push hnew]

/-- A successful evaluation restores a trail of entered cells. -/
theorem Entered.compute (h : Entered run) (hconsistent : sheet.Consistent run.progress)
    (hok : (sheet.compute cell run).1 = .ok value) :
    (sheet.compute cell run).2.trail = run.trail ∧ Entered (sheet.compute cell run).2 := by
  have hdenotes := (consistent_compute cell run hconsistent).2 value hok
  have htrail : (sheet.compute cell run).2.trail = run.trail := by
    apply trail_compute_of_hasValue ⟨value, hdenotes⟩ run (hconsistent.clear ⟨value, hdenotes⟩)
    intro other hother inside hreaches
    cases hmark : run.progress.mark (sheet.index other inside) with
    | untouched => exact absurd hmark (h other hother inside)
    | started =>
        apply absurd (HasValue.of_reaches ⟨value, hdenotes⟩ hreaches)
        have hnone := hconsistent.barren _ hmark
        rwa [address_index] at hnone
    | done value => simp [Run.Done, hmark, Mark.isDone]
  refine ⟨htrail, ?_⟩
  intro other hother inside
  exact mark_ne_untouched_compute (h other (htrail ▸ hother) inside) cell

theorem Entered.follow (h : Entered current) (place : Fin sheet.size) (text : String) :
    Entered (current.follow place text) := by
  intro other hother inside
  rw [Run.follow, Progress.mark_follow]
  exact h other hother inside

/-- A cell that can be entered is not on a trail of entered cells. -/
theorem Entered.not_mem (h : Entered run) {inside : sheet.Holds cell}
    (hopen : run.Open (sheet.index cell inside)) : cell ∉ run.trail := by
  intro hlisted
  cases hmark : run.progress.mark (sheet.index cell inside) with
  | untouched => exact h cell hlisted inside hmark
  | started => exact hopen.free ⟨hmark, by rwa [address_index]⟩
  | done value => exact hopen.pending (Mark.isDone_iff.2 ⟨value, hmark⟩)

/-- The formula of `source` gets no further than its reference to `target`: the cells
that it refers to before have values, and `target` has none. -/
def StopsAt (sheet : Sheet) (source : Address) (text : String) (target : Address) : Prop :=
  ∃ formula before after, sheet.formula? source = some formula ∧
    formula.references = before ++ text :: after ∧
    Address.locate text sheet.rows sheet.cols = .ok target ∧
    (∀ earlier ∈ before, ∃ other,
      Address.locate earlier sheet.rows sheet.cols = .ok other ∧ sheet.HasValue other) ∧
    ¬sheet.HasValue target

/-- Inside the formula of a cell without a value, as long as the references have found
values. -/
structure Descending (sheet : Sheet) (cell : Address) (inside : sheet.Holds cell)
    (run current : Run sheet) : Prop where
  leads : (run.enter (sheet.index cell inside) cell).Leads current
  regular : sheet.Regular current.progress
  entered : Entered current
  trail_eq : current.trail = run.trail.push cell
  started : current.progress.mark (sheet.index cell inside) = .started
  advances : ∀ place, place ≠ sheet.index cell inside →
    Advances run.progress current.progress place
  workload : current.workload = run.workload + 1

variable {inside : sheet.Holds cell}

theorem Descending.enter (hregular : sheet.Regular run.progress) (hentered : Entered run)
    (hnone : ¬sheet.HasValue cell) (hopen : run.Open (sheet.index cell inside)) :
    sheet.Descending cell inside run (run.enter (sheet.index cell inside) cell) where
  leads := .refl _
  regular := ⟨hregular.consistent.enter inside hnone, hregular.recorded.start _⟩
  entered := by
    intro other hother hholds
    rw [Run.enter, Progress.mark_start]
    split
    · exact Mark.noConfusion
    · rename_i hne
      rcases Trail.mem_push.1 hother with rfl | hold
      · exact absurd rfl hne
      · exact hentered other hold hholds
  trail_eq := rfl
  started := by simp [Run.enter]
  advances := by
    intro place hne
    exact Or.inl ⟨by simp [Run.enter, hne.symm], by simp [Run.enter]⟩
  workload := Run.workload_enter hopen.pending cell

/-- A reference that finds a value is the latest one then. -/
theorem Descending.follow (h : sheet.Descending cell inside run current)
    (hok : (sheet.compute target (current.follow (sheet.index cell inside) text)).1 = .ok value) :
    sheet.Descending cell inside run
        (sheet.compute target (current.follow (sheet.index cell inside) text)).2 ∧
      (sheet.compute target
        (current.follow (sheet.index cell inside) text)).2.progress.lastReference
          (sheet.index cell inside) = some text := by
  have hregular := h.regular.follow h.started text
  have hstarted : (current.follow (sheet.index cell inside) text).progress.mark
      (sheet.index cell inside) = .started := by
    rw [Run.follow, Progress.mark_follow, h.started]
  have hdenotes := (consistent_compute target _ hregular.consistent).2 value hok
  obtain ⟨htrail, hentered⟩ := (h.entered.follow _ text).compute hregular.consistent hok
  have hstill := hregular.consistent.started_compute hstarted target
  constructor
  · constructor
    case leads =>
      exact (h.leads.trans (current.leads_follow _ text)).trans (sheet.leads_compute target _)
    case regular => exact hregular.compute target
    case entered => exact hentered
    case trail_eq => exact htrail.trans h.trail_eq
    case started => exact hstill
    case advances =>
      intro place hne
      exact ((h.advances place hne).follow hne text).trans (hregular.advances hok place)
    case workload =>
      rw [workload_compute_of_hasValue ⟨value, hdenotes⟩ _
        (hregular.consistent.clear ⟨value, hdenotes⟩), Run.workload_follow, h.workload]
  · rcases hregular.advances hok (sheet.index cell inside) with ⟨-, hlast⟩ | ⟨-, hdone⟩
    · rw [hlast]
      simp [Run.follow]
    · rw [hstill] at hdone
      cases hdone

/-- What a failed evaluation leaves behind: a chain of cells at the end of the trail,
each at the reference that leads to the next. -/
structure Stranded (sheet : Sheet) (run later : Run sheet) (chain : List Address) : Prop where
  regular : sheet.Regular later.progress
  trail_eq : later.trail.toList = run.trail.toList ++ chain
  started : ∀ other ∈ chain, ∃ inside : sheet.Holds other,
    later.progress.mark (sheet.index other inside) = .started
  linked : chain.IsChain fun source target => ∃ text, sheet.StopsAt source text target ∧
    ∃ inside : sheet.Holds source,
      later.progress.lastReference (sheet.index source inside) = some text
  advances : ∀ place : Fin sheet.size, sheet.address place ∉ chain →
    Advances run.progress later.progress place
  workload : later.workload = run.workload + chain.length

theorem Stranded.nodup (h : sheet.Stranded run next chain) : chain.Nodup := by
  have hnodup := next.trail.nodup_toList
  rw [h.trail_eq] at hnodup
  exact (List.nodup_append.1 hnodup).2.1

theorem Stranded.not_mem (h : sheet.Stranded run next chain) {other : Address}
    (hother : other ∈ chain) : other ∉ run.trail := by
  intro hlisted
  have hnodup := next.trail.nodup_toList
  rw [h.trail_eq] at hnodup
  exact (List.nodup_append.1 hnodup).2.2 other (Trail.mem_toList.2 hlisted) other hother rfl

/-- A chain that starts somewhere ends where the trail does. -/
theorem Stranded.getLast?_eq (h : sheet.Stranded run next chain)
    (hstarts : chain.head? = some cell) : chain.getLast? = next.trail.last? := by
  rcases chain with _ | ⟨first, rest⟩
  · cases hstarts
  · rw [← Trail.getLast?_toList, h.trail_eq,
      List.getLast?_append_of_ne_nil _ (List.cons_ne_nil first rest)]

theorem Regular.stranded_nil (h : sheet.Regular run.progress) (hentered : Entered run)
    (hok : (sheet.compute cell run).1 = .ok value) :
    sheet.Stranded run (sheet.compute cell run).2 [] where
  regular := h.compute cell
  trail_eq := by rw [(hentered.compute h.consistent hok).1, List.append_nil]
  started := by simp
  linked := .nil
  advances := fun place _ => h.advances hok place
  workload := by
    have hdenotes := (consistent_compute cell run h.consistent).2 value hok
    exact workload_compute_of_hasValue ⟨value, hdenotes⟩ run
      (h.consistent.clear ⟨value, hdenotes⟩)

theorem ne_index_of_ne {place : Fin sheet.size} (hne : sheet.address place ≠ cell) :
    place ≠ sheet.index cell inside := by
  rintro rfl
  exact hne (address_index inside)

theorem Descending.stranded (h : sheet.Descending cell inside run current)
    (hnew : cell ∉ run.trail) : sheet.Stranded run current [cell] where
  regular := h.regular
  trail_eq := by rw [h.trail_eq, Trail.toList_push hnew]
  started := by
    intro other hother
    obtain rfl := List.mem_singleton.1 hother
    exact ⟨inside, h.started⟩
  linked := .singleton cell
  advances := by
    intro place hplace
    exact h.advances place (ne_index_of_ne fun hsame => hplace (List.mem_singleton.2 hsame))
  workload := h.workload

/-- A reference that fails stays the latest one of its cell. -/
theorem Descending.stranded_self (h : sheet.Descending cell inside run current)
    (hnext : sheet.Stranded (current.follow (sheet.index cell inside) text) next chain) :
    next.progress.mark (sheet.index cell inside) = .started ∧
      next.progress.lastReference (sheet.index cell inside) = some text := by
  have hlisted : cell ∈ (current.follow (sheet.index cell inside) text).trail := by
    change cell ∈ current.trail
    rw [h.trail_eq]
    exact Trail.mem_push.2 (Or.inl rfl)
  have hapart : cell ∉ chain := fun hchain => hnext.not_mem hchain hlisted
  rcases hnext.advances (sheet.index cell inside) (by rwa [address_index]) with
    ⟨hmark, hlast⟩ | ⟨-, hdone⟩
  · rw [hmark, hlast]
    exact ⟨by rw [Run.follow, Progress.mark_follow, h.started], by simp [Run.follow]⟩
  · obtain ⟨value, hvalue⟩ := Mark.isDone_iff.1 hdone
    exact absurd ⟨value, hnext.regular.consistent.sound.denotes _ value hvalue⟩
      (h.regular.consistent.barren _ h.started)

/-- A reference that fails puts its cell in front of the chain. -/
theorem Descending.stranded_cons (h : sheet.Descending cell inside run current)
    (hnew : cell ∉ run.trail) (hstops : sheet.StopsAt cell text target)
    (hnext : sheet.Stranded (current.follow (sheet.index cell inside) text) next chain)
    (hhead : ∀ first, chain.head? = some first → first = target) :
    sheet.Stranded run next (cell :: chain) := by
  obtain ⟨hstarted, hlast⟩ := h.stranded_self hnext
  constructor
  case regular => exact hnext.regular
  case trail_eq =>
    have hfollowed : (current.follow (sheet.index cell inside) text).trail =
        run.trail.push cell := h.trail_eq
    rw [hnext.trail_eq, hfollowed, Trail.toList_push hnew, List.append_assoc]
    rfl
  case started =>
    intro other hother
    rcases List.mem_cons.1 hother with rfl | hrest
    · exact ⟨inside, hstarted⟩
    · exact hnext.started other hrest
  case linked =>
    refine List.isChain_cons.2 ⟨?_, hnext.linked⟩
    intro first hfirst
    rw [hhead first hfirst]
    exact ⟨text, hstops, inside, hlast⟩
  case advances =>
    intro place hplace
    rw [List.mem_cons, not_or] at hplace
    have hne : place ≠ sheet.index cell inside := ne_index_of_ne hplace.1
    exact ((h.advances place hne).follow hne text).trans (hnext.advances place hplace.2)
  case workload =>
    rw [hnext.workload, Run.workload_follow, h.workload, List.length_cons]
    omega

/-- If a cell fails, it leaves a chain that starts there and ends at the cell at fault.
There is no chain if the cell was guarded; the circle is then put down to the end of the
trail. -/
def Strands (sheet : Sheet) (cell : Address) (run : Run sheet) : Prop :=
  ∀ fault, (sheet.compute cell run).1 = .error fault →
    ∃ chain, sheet.Stranded run (sheet.compute cell run).2 chain ∧
      (sheet.compute cell run).2.trail.last? = some fault.cell ∧
      (chain.head? = some cell ∨ chain = [] ∧ cell ∈ run.trail)

/-- The reference that fails is the one at which the formula stops. -/
theorem Descending.stranded_of_strands (h : sheet.Descending cell inside run current)
    (hnew : cell ∉ run.trail) (hstops : sheet.StopsAt cell text target)
    (hstrands : sheet.Strands target (current.follow (sheet.index cell inside) text))
    {fault : Fault}
    (hfailed : (sheet.compute target (current.follow (sheet.index cell inside) text)).1 =
      .error fault) :
    ∃ chain, sheet.Stranded run
        (sheet.compute target (current.follow (sheet.index cell inside) text)).2
        (cell :: chain) ∧
      (sheet.compute target (current.follow (sheet.index cell inside) text)).2.trail.last? =
        some fault.cell := by
  obtain ⟨chain, hnext, hlast, hhead⟩ := hstrands fault hfailed
  refine ⟨chain, h.stranded_cons hnew hstops hnext ?_, hlast⟩
  intro first hfirst
  rcases hhead with hhead | ⟨rfl, -⟩
  · exact Option.some.inj (hfirst.symm.trans hhead)
  · cases hfirst

/-- A formula that fails leaves a chain, if the cells that it refers to do. -/
theorem computeBody_stranded (hnone : ¬sheet.HasValue cell)
    (hregular : sheet.Regular run.progress) (hentered : Entered run)
    (hopen : run.Open (sheet.index cell inside))
    (hstrands : ∀ target text current, sheet.Descending cell inside run current →
      sheet.Holds target →
      sheet.Strands target (current.follow (sheet.index cell inside) text))
    {fault : Fault} (hfailed : (sheet.computeBody cell inside run).1 = .error fault) :
    ∃ chain, sheet.Stranded run (sheet.computeBody cell inside run).2 (cell :: chain) ∧
      (sheet.computeBody cell inside run).2.trail.last? = some fault.cell := by
  have hnew := hentered.not_mem hopen
  refine ((sheet.site cell inside).evaluate_keeps
    (f := fun target reference later =>
      sheet.compute target (later.follow (sheet.index cell inside) reference))
    (I := fun before later => sheet.Descending cell inside run later ∧
      ∀ text ∈ before, ∃ other,
        Address.locate text sheet.rows sheet.cols = .ok other ∧ sheet.HasValue other)
    (E := fun fault later => ∃ chain, sheet.Stranded run later (cell :: chain) ∧
      later.trail.last? = some fault.cell) ?hlookup ?hown
    ⟨Descending.enter hregular hentered hnone hopen, by simp⟩).2 fault hfailed
  case hlookup =>
    rintro before text after target later hsplit hlocated ⟨hdescending, hbefore⟩
    have hrefers := refers_of_split inside hsplit hlocated
    have hconsistent := (hdescending.regular.follow hdescending.started text).consistent
    constructor
    · intro value hok
      refine ⟨(hdescending.follow hok).1, ?_⟩
      intro earlier hearlier
      rcases List.mem_append.1 hearlier with hold | hlast
      · exact hbefore earlier hold
      · rw [List.mem_singleton.1 hlast]
        exact ⟨target, hlocated, value, (consistent_compute target _ hconsistent).2 value hok⟩
    · intro reason hdeeper
      have hstops : sheet.StopsAt cell text target :=
        ⟨_, before, after, formula?_eq_some inside, hsplit, hlocated, hbefore,
          hconsistent.not_hasValue_of_error hdeeper⟩
      exact hdescending.stranded_of_strands hnew hstops
        (hstrands target text later hdescending hrefers.holds) hdeeper
  case hown =>
    rintro before reason later hown ⟨hdescending, -⟩
    refine ⟨[], hdescending.stranded hnew, ?_⟩
    rw [hdescending.trail_eq, Trail.last?_push hnew, Site.cell_of_faultFrom? hown]
    rfl

theorem compute_stranded (inside : sheet.Holds cell) (hregular : sheet.Regular run.progress)
    (hentered : Entered run) : sheet.Strands cell run := by
  induction cell, run using compute_induction with
  | hstep cell run ih =>
      intro fault hfailed
      rcases sheet.compute_cases cell run with
        houtside | ⟨_, ⟨known, hknown⟩ | hguarded | hopen⟩
      · exact absurd inside houtside
      · rw [compute_of_done inside hknown] at hfailed
        cases hfailed
      · have hlisted : cell ∈ run.trail := by simpa only [address_index] using hguarded.2
        rw [compute_of_guarded inside hguarded] at hfailed ⊢
        cases hfailed
        obtain ⟨last, hlast⟩ := Trail.exists_last?_of_mem hlisted
        refine ⟨[], ?_, ?_, Or.inr ⟨rfl, hlisted⟩⟩
        · exact ⟨hregular, (List.append_nil _).symm, by simp, .nil,
            fun _ _ => Or.inl ⟨rfl, rfl⟩, rfl⟩
        · simp [Fault.cell, circleAt, hlast]
      · have hbody : (sheet.computeBody cell inside run).1 = .error fault :=
          (compute_answer_of_open hopen).symm.trans hfailed
        obtain ⟨chain, hchain, hlast⟩ := computeBody_stranded
          (hregular.consistent.not_hasValue_of_error hfailed) hregular hentered hopen
          (fun target text current hdescending htarget =>
            ih inside hopen target text current hdescending.leads htarget
              (hdescending.regular.follow hdescending.started text)
              (hdescending.entered.follow _ text)) hbody
        rw [compute_error_of_open hopen hbody]
        exact ⟨cell :: chain, hchain, hlast, Or.inl rfl⟩

end Sheet

end PostfixSheet
