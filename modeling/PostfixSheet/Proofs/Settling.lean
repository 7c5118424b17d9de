/-
What becomes of the cells below a cell with a value.

Its evaluation gives their values to all cells that it reaches and touches no
other.  The trail does not matter for this: no cell that is reached is guarded, as
long as none of them has been left behind without a value.
-/
import PostfixSheet.Proofs.Computation
import PostfixSheet.Proofs.Meaning

namespace PostfixSheet

namespace Sheet

variable {sheet : Sheet} {cell target : Address} {value : Float}
  {earlier later : Progress sheet.size}

theorem address_inj {place other : Fin sheet.size} :
    sheet.address place = sheet.address other ↔ place = other := by
  constructor
  · intro h
    have hindex := (index_inj (sheet.holds_address place) (sheet.holds_address other)).2 h
    rwa [index_address, index_address] at hindex
  · rintro rfl
    rfl

/-- Kept values are the right ones, and every value that they were found from is
kept as well. -/
structure Sound (sheet : Sheet) (progress : Progress sheet.size) : Prop where
  denotes : ∀ (place : Fin sheet.size) value, progress.mark place = .done value →
    sheet.Denotes (sheet.address place) value
  closed : ∀ source target : Fin sheet.size, (progress.mark source).isDone = true →
    sheet.Refers (sheet.address source) (sheet.address target) →
    (progress.mark target).isDone = true

/-- The cells that `cell` reaches have their values afterwards, and all others are
as they were. -/
structure Settles (sheet : Sheet) (cell : Address) (earlier later : Progress sheet.size) :
    Prop where
  reached : ∀ place : Fin sheet.size, sheet.Reaches cell (sheet.address place) →
    ∃ value, later.mark place = .done value ∧ sheet.Denotes (sheet.address place) value
  mark_eq : ∀ place : Fin sheet.size, ¬sheet.Reaches cell (sheet.address place) →
    later.mark place = earlier.mark place
  lastReference_eq : ∀ place : Fin sheet.size, ¬sheet.Reaches cell (sheet.address place) →
    later.lastReference place = earlier.lastReference place

theorem sound_fresh (sheet : Sheet) : sheet.Sound (.fresh _) where
  denotes := by intro place value h; simp at h
  closed := by intro source target h; simp [Mark.isDone] at h

theorem Sound.of_marks (h : sheet.Sound earlier)
    (hmarks : ∀ place, later.mark place = earlier.mark place) : sheet.Sound later where
  denotes := by
    intro place value hdone
    exact h.denotes place value (hmarks place ▸ hdone)
  closed := by
    intro source target hdone hrefers
    rw [hmarks] at hdone ⊢
    exact h.closed source target hdone hrefers

theorem Sound.denotes_index (h : sheet.Sound earlier) (inside : sheet.Holds cell)
    (hdone : earlier.mark (sheet.index cell inside) = .done value) :
    sheet.Denotes cell value := by
  have hdenotes := h.denotes _ value hdone
  rwa [address_index] at hdenotes

/-- Entering a cell without a kept value loses no value. -/
theorem Sound.start (h : sheet.Sound earlier) {place : Fin sheet.size}
    (hpending : (earlier.mark place).isDone ≠ true) : sheet.Sound (earlier.start place) where
  denotes := by
    intro other value hdone
    rw [Progress.mark_start] at hdone
    split at hdone
    · cases hdone
    · exact h.denotes other value hdone
  closed := by
    intro source target hdone hrefers
    rw [Progress.mark_start] at hdone ⊢
    split at hdone
    · cases hdone
    · have htarget := h.closed source target hdone hrefers
      split
      · rename_i hsame
        exact absurd (hsame ▸ htarget) hpending
      · exact htarget

theorem Sound.done_of_reaches (h : sheet.Sound earlier) {source last : Address}
    (hreaches : sheet.Reaches source last) {start finish : Fin sheet.size}
    (hstart : sheet.address start = source) (hfinish : sheet.address finish = last)
    (hdone : (earlier.mark start).isDone = true) : (earlier.mark finish).isDone = true := by
  induction hreaches generalizing start with
  | refl _ =>
      rw [address_inj.1 (hstart.trans hfinish.symm)] at hdone
      exact hdone
  | @step source next last hrefers hrest ih =>
      have hnext := address_index hrefers.holds
      apply ih hnext hfinish
      apply h.closed start _ hdone
      rw [hstart, hnext]
      exact hrefers

theorem Settles.done (h : sheet.Settles cell earlier later) {place : Fin sheet.size}
    (hreaches : sheet.Reaches cell (sheet.address place)) :
    (later.mark place).isDone = true := by
  obtain ⟨value, hdone, _⟩ := h.reached place hreaches
  exact Mark.isDone_iff.2 ⟨value, hdone⟩

theorem Settles.done_mono (h : sheet.Settles cell earlier later) {place : Fin sheet.size}
    (hdone : (earlier.mark place).isDone = true) : (later.mark place).isDone = true := by
  by_cases hreaches : sheet.Reaches cell (sheet.address place)
  · exact h.done hreaches
  · rwa [h.mark_eq place hreaches]

theorem Settles.started (h : sheet.Settles cell earlier later) {place : Fin sheet.size}
    (hstarted : later.mark place = .started) :
    ¬sheet.Reaches cell (sheet.address place) ∧ earlier.mark place = .started := by
  have hoff : ¬sheet.Reaches cell (sheet.address place) := by
    intro hreaches
    have hdone := h.done hreaches
    rw [hstarted] at hdone
    cases hdone
  exact ⟨hoff, h.mark_eq place hoff ▸ hstarted⟩

theorem Settles.sound (h : sheet.Settles cell earlier later) (hsound : sheet.Sound earlier) :
    sheet.Sound later where
  denotes := by
    intro place value hdone
    by_cases hreaches : sheet.Reaches cell (sheet.address place)
    · obtain ⟨other, hother, hdenotes⟩ := h.reached place hreaches
      rw [hdone] at hother
      cases hother
      exact hdenotes
    · exact hsound.denotes place value (h.mark_eq place hreaches ▸ hdone)
  closed := by
    intro source target hdone hrefers
    by_cases hreaches : sheet.Reaches cell (sheet.address source)
    · exact h.done (hreaches.trans (.step hrefers (.refl _)))
    · rw [h.mark_eq source hreaches] at hdone
      exact h.done_mono (hsound.closed source target hdone hrefers)

theorem Sound.settles (h : sheet.Sound earlier) {place : Fin sheet.size}
    (hdone : (earlier.mark place).isDone = true) :
    sheet.Settles (sheet.address place) earlier earlier where
  reached := by
    intro other hreaches
    obtain ⟨value, hmark⟩ := Mark.isDone_iff.1 (h.done_of_reaches hreaches rfl rfl hdone)
    exact ⟨value, hmark, h.denotes other value hmark⟩
  mark_eq := fun _ _ => rfl
  lastReference_eq := fun _ _ => rfl

/-- Nothing stands in the way of a cell: kept values are the right ones, and no cell
that it reaches has been left behind without a value. -/
structure Clear (sheet : Sheet) (cell : Address) (progress : Progress sheet.size) : Prop where
  sound : sheet.Sound progress
  not_started : ∀ place : Fin sheet.size, sheet.Reaches cell (sheet.address place) →
    progress.mark place ≠ .started

/-- Inside the formula of a cell with a value, when the references in `before` have
been followed. -/
structure Settling (sheet : Sheet) (cell : Address) (inside : sheet.Holds cell)
    (run : Run sheet) (before : List String) (later : Run sheet) : Prop where
  sound : sheet.Sound later.progress
  entered : later.progress.mark (sheet.index cell inside) = .started
  followed : ∀ text ∈ before, ∀ target,
    Address.locate text sheet.rows sheet.cols = .ok target →
    ∀ place : Fin sheet.size, sheet.Reaches target (sheet.address place) →
      (later.progress.mark place).isDone = true
  not_started : ∀ place : Fin sheet.size, sheet.Reaches cell (sheet.address place) →
    place ≠ sheet.index cell inside → later.progress.mark place ≠ .started
  mark_eq : ∀ place : Fin sheet.size, ¬sheet.Reaches cell (sheet.address place) →
    later.progress.mark place = run.progress.mark place
  lastReference_eq : ∀ place : Fin sheet.size, ¬sheet.Reaches cell (sheet.address place) →
    later.progress.lastReference place = run.progress.lastReference place
  trail_eq : (∀ other ∈ run.trail, ¬sheet.Reaches cell other) →
    later.trail = run.trail.push cell

variable {inside : sheet.Holds cell} {run current : Run sheet}

theorem Clear.not_started_self (h : sheet.Clear cell earlier) :
    earlier.mark (sheet.index cell inside) ≠ .started := by
  apply h.not_started
  rw [address_index]
  exact .refl cell

/-- A cell with nothing in its way is entered for the first time. -/
theorem Clear.untouched (h : sheet.Clear cell run.progress)
    (hopen : run.Open (sheet.index cell inside)) :
    run.progress.mark (sheet.index cell inside) = .untouched := by
  cases hmark : run.progress.mark (sheet.index cell inside) with
  | untouched => rfl
  | started => exact absurd hmark h.not_started_self
  | done value => exact absurd (Mark.isDone_iff.2 ⟨value, hmark⟩) hopen.pending

theorem ne_index_of_not_reaches {place : Fin sheet.size}
    (hoff : ¬sheet.Reaches cell (sheet.address place)) : place ≠ sheet.index cell inside := by
  rintro rfl
  rw [address_index] at hoff
  exact hoff (.refl cell)

theorem Settling.enter (hclear : sheet.Clear cell run.progress)
    (hopen : run.Open (sheet.index cell inside)) :
    sheet.Settling cell inside run [] (run.enter (sheet.index cell inside) cell) where
  sound := hclear.sound.start hopen.pending
  entered := by simp [Run.enter]
  followed := by simp
  not_started := by
    intro place hreaches hne
    simpa [Run.enter, hne.symm] using hclear.not_started place hreaches
  mark_eq := by
    intro place hoff
    simp [Run.enter, (ne_index_of_not_reaches hoff).symm]
  lastReference_eq := by simp [Run.enter]
  trail_eq := fun _ => rfl

/-- A reference may be followed, since it does not lead back. -/
theorem Settling.clear {before : List String} (h : sheet.Settling cell inside run before current)
    (hvalue : sheet.HasValue cell) (hrefers : sheet.Refers cell target) (text : String) :
    sheet.Clear target (current.follow (sheet.index cell inside) text).progress where
  sound := h.sound.of_marks (by simp [Run.follow])
  not_started := by
    intro place hreaches
    have hne : place ≠ sheet.index cell inside := by
      rintro rfl
      rw [address_index] at hreaches
      exact hvalue.not_reaches hrefers hreaches
    simpa [Run.follow] using h.not_started place (.step hrefers hreaches) hne

/-- The cells on the trail stay out of reach when a reference is followed. -/
theorem Settling.trail_off {before : List String}
    (h : sheet.Settling cell inside run before current) (hvalue : sheet.HasValue cell)
    (hrefers : sheet.Refers cell target) (hoff : ∀ other ∈ run.trail, ¬sheet.Reaches cell other) :
    ∀ other ∈ current.trail, ¬sheet.Reaches target other := by
  intro other hother hreaches
  rw [h.trail_eq hoff, Trail.mem_push] at hother
  rcases hother with rfl | hother
  · exact hvalue.not_reaches hrefers hreaches
  · exact hoff other hother (.step hrefers hreaches)

theorem Settling.follow {before : List String}
    (h : sheet.Settling cell inside run before current) (hvalue : sheet.HasValue cell)
    (hrefers : sheet.Refers cell target) {text : String}
    (hlocated : Address.locate text sheet.rows sheet.cols = .ok target) {next : Run sheet}
    (hsettles : sheet.Settles target
      (current.follow (sheet.index cell inside) text).progress next.progress)
    (htrail : (∀ other ∈ current.trail, ¬sheet.Reaches target other) →
      next.trail = current.trail) :
    sheet.Settling cell inside run (before ++ [text]) next where
  sound := hsettles.sound (h.sound.of_marks (by simp [Run.follow]))
  entered := by
    rw [hsettles.mark_eq]
    · simpa [Run.follow] using h.entered
    · rw [address_index]
      exact hvalue.not_reaches hrefers
  followed := by
    intro other hother found hfound place hreaches
    rcases List.mem_append.1 hother with hold | hnew
    · apply hsettles.done_mono
      simpa [Run.follow] using h.followed other hold found hfound place hreaches
    · rw [List.mem_singleton.1 hnew, hlocated] at hfound
      cases hfound
      exact hsettles.done hreaches
  not_started := by
    intro place hreaches hne hstarted
    have hbefore := (hsettles.started hstarted).2
    rw [Run.follow, Progress.mark_follow] at hbefore
    exact h.not_started place hreaches hne hbefore
  mark_eq := by
    intro place hoff
    rw [hsettles.mark_eq place (fun hreaches => hoff (.step hrefers hreaches)), Run.follow,
      Progress.mark_follow, h.mark_eq place hoff]
  lastReference_eq := by
    intro place hoff
    rw [hsettles.lastReference_eq place (fun hreaches => hoff (.step hrefers hreaches)),
      Run.follow, Progress.lastReference_follow, if_neg (ne_index_of_not_reaches hoff).symm,
      h.lastReference_eq place hoff]
  trail_eq := by
    intro hoff
    rw [htrail (h.trail_off hvalue hrefers hoff), h.trail_eq hoff]

theorem Settling.settles
    (h : sheet.Settling cell inside run (sheet.site cell inside).formula.references current)
    (hdenotes : sheet.Denotes cell value) :
    sheet.Settles cell run.progress
      (current.finish (sheet.index cell inside) value).progress where
  reached := by
    intro place hreaches
    by_cases hsame : sheet.index cell inside = place
    · refine ⟨value, by simp [Run.finish, hsame], ?_⟩
      rw [← hsame, address_index]
      exact hdenotes
    · generalize hlast : sheet.address place = last at hreaches
      cases hreaches with
      | refl _ => exact absurd (by rw [← address_inj, address_index, hlast]) hsame
      | @step _ next _ hrefers hrest =>
          obtain ⟨text, htext, hlocated⟩ := (refers_iff inside).1 hrefers
          rw [← hlast] at hrest ⊢
          obtain ⟨found, hmark⟩ :=
            Mark.isDone_iff.1 (h.followed text htext next hlocated place hrest)
          exact ⟨found, by simp [Run.finish, hsame, hmark], h.sound.denotes place found hmark⟩
  mark_eq := by
    intro place hoff
    simp [Run.finish, (ne_index_of_not_reaches hoff).symm, h.mark_eq place hoff]
  lastReference_eq := by
    intro place hoff
    simp [Run.finish, h.lastReference_eq place hoff]

/-- The formula of a cell finds its value if every reference finds the value that its
target has, and keeps up what the references keep up. -/
theorem computeBody_of_values {values : Address → Float} {J : List String → Run sheet → Prop}
    (evaluated : ((sheet.site cell inside).evaluate (.ofValues values) ()).1 = .ok value)
    (hstart : J [] (run.enter (sheet.index cell inside) cell))
    (hstep : ∀ before text after target current,
      (sheet.site cell inside).formula.references = before ++ text :: after →
      Address.locate text sheet.rows sheet.cols = .ok target → J before current →
      ∃ next, sheet.compute target (current.follow (sheet.index cell inside) text) =
        (.ok (values target), next) ∧ J (before ++ [text]) next) :
    (sheet.computeBody cell inside run).1 = .ok value ∧
      J (sheet.site cell inside).formula.references (sheet.computeBody cell inside run).2 := by
  have hagree := (sheet.site cell inside).evaluate_agree
    (f := fun target reference later =>
      sheet.compute target (later.follow (sheet.index cell inside) reference))
    (g := .ofValues values) (R := fun before current _ => J before current)
    (E := fun _ _ _ => False) (t := ())
    (by
      intro before text after target current _ hsplit hlocated hcurrent
      obtain ⟨next, hnext, hkept⟩ := hstep before text after target current hsplit hlocated hcurrent
      rw [hnext]
      exact ⟨rfl, fun _ _ => hkept, fun _ hfault => by cases hfault⟩)
    (fun _ fault _ _ hfault _ => by
      simp [Site.fault?_eq_none_of_evaluate evaluated] at hfault)
    hstart
  have hbody : (sheet.computeBody cell inside run).1 = .ok value :=
    hagree.answer.trans evaluated
  exact ⟨hbody, hagree.after_value value hbody⟩

/-- A cell with a value gets it, and so do the cells that it reaches.  The trail is
restored unless one of them was listed on it. -/
theorem compute_settles (h : sheet.Denotes cell value) (run : Run sheet)
    (hclear : sheet.Clear cell run.progress) :
    ∃ later, sheet.compute cell run = (.ok value, later) ∧
      sheet.Settles cell run.progress later.progress ∧
      ((∀ other ∈ run.trail, ¬sheet.Reaches cell other) → later.trail = run.trail) := by
  induction h generalizing run with
  | @intro cell value inside values operands evaluated ih =>
      have hdenotes : sheet.Denotes cell value := .intro inside values operands evaluated
      have hself := address_index inside
      rcases sheet.compute_cases cell run with
        houtside | ⟨_, ⟨known, hknown⟩ | hguarded | hopen⟩
      · exact absurd inside houtside
      · obtain rfl := hdenotes.unique (hclear.sound.denotes_index inside hknown)
        refine ⟨run, compute_of_done inside hknown, ?_, fun _ => rfl⟩
        have hsettles := hclear.sound.settles (Mark.isDone_iff.2 ⟨value, hknown⟩)
        rwa [hself] at hsettles
      · exact absurd hguarded.1 hclear.not_started_self
      · have hentered := Settling.enter hclear hopen
        obtain ⟨hbody, hsettling⟩ := computeBody_of_values evaluated hentered (by
          intro before text after target current hsplit hlocated hsettling
          have hrefers := refers_of_split inside hsplit hlocated
          obtain ⟨next, hnext, hsettles, htrail⟩ := ih target hrefers
            (current.follow (sheet.index cell inside) text)
            (hsettling.clear ⟨value, hdenotes⟩ hrefers text)
          exact ⟨next, hnext,
            hsettling.follow ⟨value, hdenotes⟩ hrefers hlocated hsettles htrail⟩)
        refine ⟨_, compute_ok_of_open hopen hbody, hsettling.settles hdenotes, ?_⟩
        intro hoff
        have hnew : cell ∉ run.trail := fun hlisted => hoff cell hlisted (.refl cell)
        simp [Run.finish, hsettling.trail_eq hoff, Trail.pop_push hnew]

/-- Inside the formula of a cell with a value, whatever its references keep up is kept
up until the cell has its value. -/
theorem compute_of_settling (hdenotes : sheet.Denotes cell value)
    (hclear : sheet.Clear cell run.progress) (hopen : run.Open (sheet.index cell inside))
    {J : List String → Run sheet → Prop}
    (hstart : J [] (run.enter (sheet.index cell inside) cell))
    (hstep : ∀ before text target current next, sheet.Refers cell target →
      sheet.Settling cell inside run before current → J before current →
      sheet.Clear target (current.follow (sheet.index cell inside) text).progress →
      (sheet.compute target (current.follow (sheet.index cell inside) text)).2 = next →
      sheet.Settles target (current.follow (sheet.index cell inside) text).progress
        next.progress →
      J (before ++ [text]) next) :
    ∃ last, sheet.compute cell run = (.ok value, last.finish (sheet.index cell inside) value) ∧
      sheet.Settling cell inside run (sheet.site cell inside).formula.references last ∧
      J (sheet.site cell inside).formula.references last := by
  have hvalue : sheet.HasValue cell := ⟨value, hdenotes⟩
  cases hdenotes with
  | intro _ values operands evaluated =>
      obtain ⟨hbody, hsettling, hkept⟩ := computeBody_of_values
        (J := fun before current =>
          sheet.Settling cell inside run before current ∧ J before current)
        evaluated ⟨Settling.enter hclear hopen, hstart⟩ (by
          rintro before text after target current hsplit hlocated ⟨hsettling, hcurrent⟩
          have hrefers := refers_of_split inside hsplit hlocated
          have hclear := hsettling.clear hvalue hrefers text
          obtain ⟨next, hnext, hsettles, htrail⟩ := compute_settles (operands target hrefers)
            (current.follow (sheet.index cell inside) text) hclear
          exact ⟨next, hnext, hsettling.follow hvalue hrefers hlocated hsettles htrail,
            hstep before text target current next hrefers hsettling hcurrent hclear
              (by rw [hnext]) hsettles⟩)
      exact ⟨_, compute_ok_of_open hopen hbody, hsettling, hkept⟩

/-- Rules about cells with values go by induction along the references: such a cell
has its value already, or its formula is run. -/
theorem HasValue.compute_induction {motive : Address → Run sheet → Prop}
    (hdone : ∀ cell run, (sheet.compute cell run).2 = run → motive cell run)
    (hopen : ∀ cell value, ∀ inside : sheet.Holds cell, ∀ run, sheet.Denotes cell value →
      sheet.Clear cell run.progress → run.Open (sheet.index cell inside) →
      (∀ target, sheet.Refers cell target → ∀ later, sheet.Clear target later.progress →
        motive target later) →
      motive cell run)
    (h : sheet.HasValue cell) (run : Run sheet) (hclear : sheet.Clear cell run.progress) :
    motive cell run := by
  obtain ⟨value, hdenotes⟩ := h
  induction hdenotes generalizing run with
  | @intro cell value inside values operands evaluated ih =>
      rcases sheet.compute_cases cell run with
        houtside | ⟨_, ⟨known, hknown⟩ | hguarded | hfree⟩
      · exact absurd inside houtside
      · exact hdone cell run (by rw [compute_of_done inside hknown])
      · exact absurd hguarded.1 hclear.not_started_self
      · exact hopen cell value inside run (.intro inside values operands evaluated) hclear hfree
          fun target hrefers later hlater => ih target hrefers later hlater

end Sheet

end PostfixSheet
