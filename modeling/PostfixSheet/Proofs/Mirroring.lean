/-
Evaluation of sheets that mirror each other.

A sheet is mirrored along a map of its cells if the formula of every image has the same
tokens, except that its references name the images of the cells that were named.  Evaluations
then go the same way in both sheets.  Step by step the marks, the trail and the number of
evaluations stay the same along the map, so that the answers are alike, up to the texts that
a fault quotes.
-/
import Mathlib.Data.List.Forall2
import PostfixSheet.Proofs.Computation
import PostfixSheet.Proofs.Naming

namespace PostfixSheet

/-- One fault is the image of another one along a map of cells, up to the texts that they
quote. -/
inductive Fault.Mirrors (move : Address → Address) : Fault → Fault → Prop
  | malformed (cell : Address) (text text' : String) :
      Mirrors move (.malformed cell text) (.malformed (move cell) text')
  | outside (cell : Address) (text text' : String) (rows cols : Nat) :
      Mirrors move (.outside cell text rows cols) (.outside (move cell) text' rows cols)
  | underflow (cell : Address) (formula formula' operator : String) :
      Mirrors move (.underflow cell formula operator) (.underflow (move cell) formula' operator)
  | leftover (cell : Address) (formula formula' : String) (remaining : Nat) :
      Mirrors move (.leftover cell formula remaining) (.leftover (move cell) formula' remaining)
  | circular {circle image : Circle} : image.trigger = move circle.trigger →
      image.revisited = move circle.revisited → image.chain = circle.chain.map move →
      Mirrors move (.circular circle) (.circular image)

/-- Two answers are the same, or faults that mirror each other. -/
inductive Mirrored {α : Type} (move : Address → Address) :
    Except Fault α → Except Fault α → Prop
  | ok (answer : α) : Mirrored move (.ok answer) (.ok answer)
  | error {fault fault' : Fault} : fault.Mirrors move fault' →
      Mirrored move (.error fault) (.error fault')

theorem Mirrored.eq_ok_iff {α : Type} {move : Address → Address} {left right : Except Fault α}
    (h : Mirrored move left right) {answer : α} : left = .ok answer ↔ right = .ok answer := by
  cases h with
  | ok other => exact Iff.rfl
  | error _ => simp

theorem Mirrored.exists_fault {α : Type} {move : Address → Address} {left right : Except Fault α}
    (h : Mirrored move left right) {fault : Fault} (hfault : left = .error fault) :
    ∃ fault', right = .error fault' ∧ fault.Mirrors move fault' := by
  cases h with
  | ok answer => cases hfault
  | error hmirrors =>
      cases hfault
      exact ⟨_, rfl, hmirrors⟩

/-- Tokens at two sites are the same, or they are references, and the second one names the
image of the cell that the first one names, or fails as the first one does. -/
inductive Token.Mirrors (move : Address → Address) (site image : Site) : Token → Token → Prop
  | number (value : Float) : Mirrors move site image (.number value) (.number value)
  | binary (op : BinaryOperator) : Mirrors move site image (.binary op) (.binary op)
  | unary (op : UnaryOperator) : Mirrors move site image (.unary op) (.unary op)
  | reference {text text' : String} :
      Address.locate text' image.rows image.cols =
        (Address.locate text site.rows site.cols).map move →
      Mirrors move site image (.reference text) (.reference text')

/-- References that are found alike mirror each other where they stand. -/
theorem Token.Mirrors.of_locate_eq {site image : Site} {text text' : String}
    (h : Address.locate text' image.rows image.cols = Address.locate text site.rows site.cols) :
    Mirrors id site image (.reference text) (.reference text') := by
  refine .reference ?_
  rw [h, Except.map_id]
  rfl

theorem Token.mirrors_self {site image : Site} (token : Token)
    (h : ∀ text, token = .reference text →
      Address.locate text image.rows image.cols = Address.locate text site.rows site.cols) :
    Token.Mirrors id site image token token := by
  cases token with
  | number value => exact .number value
  | binary op => exact .binary op
  | unary op => exact .unary op
  | reference text => exact .of_locate_eq (h text rfl)

section Sites

variable {σ τ : Type} {move : Address → Address} {f : Lookup σ} {g : Lookup τ}
  {R : σ → τ → Prop} {s : σ} {t : τ}

theorem Fault.mirrors_ofReference (cell : Address) (text text' : String)
    (reason : ReferenceFault) :
    (Fault.ofReference cell text reason).Mirrors move
      (.ofReference (move cell) text' reason) := by
  cases reason with
  | malformed => exact .malformed cell text text'
  | outside rows cols => exact .outside cell text text' rows cols

/-- Tokens that mirror each other give answers that do, if the lookups do. -/
theorem Site.run_mirrors (site image : Site) (hcell : image.cell = move site.cell)
    (hlookup : ∀ text text' target s t,
      Address.locate text site.rows site.cols = .ok target → R s t →
      Mirrored move (f target text s).1 (g (move target) text' t).1 ∧
        R (f target text s).2 (g (move target) text' t).2)
    {tokens tokens' : List Token} (htokens : List.Forall₂ (Token.Mirrors move site image)
      tokens tokens') (stack : List Float) (hstart : R s t) :
    Mirrored move (site.run f tokens stack s).1 (image.run g tokens' stack t).1 ∧
      R (site.run f tokens stack s).2 (image.run g tokens' stack t).2 := by
  induction htokens generalizing stack s t with
  | nil =>
      match stack with
      | [value] => exact ⟨.ok value, hstart⟩
      | [] => exact ⟨.error (hcell ▸ .leftover _ _ _ _), hstart⟩
      | _ :: _ :: _ => exact ⟨.error (hcell ▸ .leftover _ _ _ _), hstart⟩
  | @cons token token' rest rest' htoken _ ih =>
      cases htoken with
      | number value => exact ih (value :: stack) hstart
      | binary op =>
          match stack with
          | right :: left :: stack => exact ih (op.apply left right :: stack) hstart
          | [] => exact ⟨.error (hcell ▸ .underflow _ _ _ _), hstart⟩
          | [_] => exact ⟨.error (hcell ▸ .underflow _ _ _ _), hstart⟩
      | unary op =>
          match stack with
          | operand :: stack => exact ih (op.apply operand :: stack) hstart
          | [] => exact ⟨.error (hcell ▸ .underflow _ _ _ _), hstart⟩
      | @reference text text' hlocated =>
          simp only [Site.run]
          cases hfound : Address.locate text site.rows site.cols with
          | error reason =>
              rw [hlocated, hfound]
              exact ⟨.error (hcell ▸ Fault.mirrors_ofReference _ _ _ _), hstart⟩
          | ok target =>
              obtain ⟨hanswer, hnext⟩ := hlookup text text' target s t hfound hstart
              rw [hlocated, hfound]
              dsimp only [Except.map]
              generalize f target text s = first at *
              generalize g (move target) text' t = second at *
              obtain ⟨answer, s'⟩ := first
              obtain ⟨answer', t'⟩ := second
              cases hanswer with
              | ok value => exact ih (value :: stack) hnext
              | error hmirrors => exact ⟨.error hmirrors, hnext⟩

theorem Site.evaluate_mirrors (site image : Site) (hcell : image.cell = move site.cell)
    (hlookup : ∀ text text' target s t,
      Address.locate text site.rows site.cols = .ok target → R s t →
      Mirrored move (f target text s).1 (g (move target) text' t).1 ∧
        R (f target text s).2 (g (move target) text' t).2)
    (htokens : List.Forall₂ (Token.Mirrors move site image) site.formula.tokens
      image.formula.tokens) (hstart : R s t) :
    Mirrored move (site.evaluate f s).1 (image.evaluate g t).1 ∧
      R (site.evaluate f s).2 (image.evaluate g t).2 :=
  Site.run_mirrors site image hcell hlookup htokens [] hstart

end Sites

/-- Different cells have different images in the other sheet, with formulas that mirror
theirs. -/
structure Sheet.Mirrors (sheet image : Sheet) (move : Address → Address) : Prop where
  holds : ∀ {cell}, sheet.Holds cell → image.Holds (move cell)
  injOn : ∀ {cell other}, sheet.Holds cell → sheet.Holds other → move cell = move other →
    cell = other
  tokens : ∀ cell, ∀ inside : sheet.Holds cell, ∀ inside' : image.Holds (move cell),
    List.Forall₂ (Token.Mirrors move (sheet.site cell inside) (image.site (move cell) inside'))
      (sheet.site cell inside).formula.tokens (image.site (move cell) inside').formula.tokens

variable {sheet image : Sheet} {move : Address → Address} {cell : Address} {run : Run sheet}
  {other : Run image}

/-- Two runs have come equally far along a map of cells. -/
structure Run.Mirrors (move : Address → Address) (run : Run sheet) (other : Run image) :
    Prop where
  mark : ∀ cell, ∀ inside : sheet.Holds cell, ∀ inside' : image.Holds (move cell),
    other.progress.mark (image.index (move cell) inside') =
      run.progress.mark (sheet.index cell inside)
  trail : other.trail.latestFirst = run.trail.latestFirst.map move
  listed : ∀ cell ∈ run.trail, sheet.Holds cell
  evaluations : other.progress.evaluations = run.progress.evaluations

theorem Run.mirrors_fresh (sheet image : Sheet) (move : Address → Address) :
    Run.Mirrors move (⟨.fresh _, .empty⟩ : Run sheet) (⟨.fresh _, .empty⟩ : Run image) where
  mark := by simp
  trail := rfl
  listed := fun cell hlisted => absurd hlisted (Trail.not_mem_empty cell)
  evaluations := rfl

/-- The next evaluation of a calculation starts without a trail. -/
theorem Run.Mirrors.restart (h : run.Mirrors move other) :
    Run.Mirrors move (⟨run.progress, .empty⟩ : Run sheet) ⟨other.progress, .empty⟩ where
  mark := h.mark
  trail := rfl
  listed := fun cell hlisted => absurd hlisted (Trail.not_mem_empty cell)
  evaluations := h.evaluations

theorem Run.Mirrors.follow (h : run.Mirrors move other) (place : Fin sheet.size)
    (place' : Fin image.size) (text text' : String) :
    (run.follow place text).Mirrors move (other.follow place' text') where
  mark := by
    intro cell inside inside'
    simp only [Run.follow, Progress.mark_follow]
    exact h.mark cell inside inside'
  trail := h.trail
  listed := h.listed
  evaluations := h.evaluations

namespace Sheet

theorem Mirrors.mem_trail_iff (h : sheet.Mirrors image move) (hruns : run.Mirrors move other)
    (inside : sheet.Holds cell) : move cell ∈ other.trail ↔ cell ∈ run.trail := by
  rw [← Trail.mem_latestFirst, ← Trail.mem_latestFirst, hruns.trail, List.mem_map]
  constructor
  · rintro ⟨listed, hlisted, hsame⟩
    have hholds := hruns.listed listed (Trail.mem_latestFirst.1 hlisted)
    exact h.injOn hholds inside hsame ▸ hlisted
  · intro hlisted
    exact ⟨cell, hlisted, rfl⟩

theorem Mirrors.index_eq_iff (h : sheet.Mirrors image move) {first second : Address}
    (inside : sheet.Holds first) (inside' : sheet.Holds second) :
    image.index (move first) (h.holds inside) = image.index (move second) (h.holds inside') ↔
      sheet.index first inside = sheet.index second inside' := by
  rw [index_inj, index_inj]
  constructor
  · exact h.injOn inside inside'
  · rintro rfl
    rfl

theorem Mirrors.guarded_iff (h : sheet.Mirrors image move) (hruns : run.Mirrors move other)
    (inside : sheet.Holds cell) :
    other.Guarded (image.index (move cell) (h.holds inside)) ↔
      run.Guarded (sheet.index cell inside) := by
  rw [Run.Guarded, Run.Guarded, hruns.mark cell inside, address_index, address_index,
    h.mem_trail_iff hruns inside]

theorem Mirrors.opens (h : sheet.Mirrors image move) (hruns : run.Mirrors move other)
    {inside : sheet.Holds cell} (hopen : run.Open (sheet.index cell inside)) :
    other.Open (image.index (move cell) (h.holds inside)) where
  pending := by
    rw [Run.Done, hruns.mark cell inside]
    exact hopen.pending
  free := mt (h.guarded_iff hruns inside).1 hopen.free

theorem Mirrors.enter (h : sheet.Mirrors image move) (hruns : run.Mirrors move other)
    (inside : sheet.Holds cell) :
    (run.enter (sheet.index cell inside) cell).Mirrors move
      (other.enter (image.index (move cell) (h.holds inside)) (move cell)) where
  mark := by
    intro found hfound hfound'
    simp only [Run.enter, Progress.mark_start, h.index_eq_iff inside hfound,
      hruns.mark found hfound]
  trail := by
    by_cases hlisted : cell ∈ run.trail
    · have hlisted' : move cell ∈ other.trail := (h.mem_trail_iff hruns inside).2 hlisted
      simp only [Run.enter, Trail.push_of_mem hlisted, Trail.push_of_mem hlisted', hruns.trail]
    · have hlisted' : move cell ∉ other.trail := mt (h.mem_trail_iff hruns inside).1 hlisted
      simp only [Run.enter, Trail.latestFirst_push hlisted, Trail.latestFirst_push hlisted',
        hruns.trail, List.map_cons]
  listed := by
    intro found hfound
    rcases Trail.mem_push.1 hfound with rfl | hold
    · exact inside
    · exact hruns.listed found hold
  evaluations := by simp [Run.enter, hruns.evaluations]

theorem Mirrors.finish (h : sheet.Mirrors image move) (hruns : run.Mirrors move other)
    (inside : sheet.Holds cell) (value : Float) :
    (run.finish (sheet.index cell inside) value).Mirrors move
      (other.finish (image.index (move cell) (h.holds inside)) value) where
  mark := by
    intro found hfound hfound'
    simp only [Run.finish, Progress.mark_finish, h.index_eq_iff inside hfound,
      hruns.mark found hfound]
  trail := by
    simp only [Run.finish, Trail.latestFirst_pop, hruns.trail, List.map_tail]
  listed := by
    intro found hfound
    have htail : found ∈ run.trail.latestFirst.tail :=
      Trail.latestFirst_pop run.trail ▸ Trail.mem_latestFirst.2 hfound
    exact hruns.listed found (Trail.mem_latestFirst.1 (List.mem_of_mem_tail htail))
  evaluations := hruns.evaluations

/-- The way from the image of a cell to the end of the trail is the image of the way from
the cell. -/
theorem Mirrors.circleThrough (h : sheet.Mirrors image move) (hruns : run.Mirrors move other)
    (inside : sheet.Holds cell) (hlisted : cell ∈ run.trail) :
    other.trail.circleThrough (move cell) = (run.trail.circleThrough cell).map move := by
  have hway : other.trail.toList = run.trail.toList.map move := by
    rw [Trail.toList, hruns.trail, Trail.toList, List.map_reverse]
  have hmem : cell ∈ run.trail.toList := Trail.mem_toList.2 hlisted
  have hmem' : move cell ∈ run.trail.toList.map move := List.mem_map_of_mem hmem
  -- the way starts at the first place of the cell; no cell before it has the same image
  obtain ⟨above, below, hsplit, hnew⟩ := List.eq_append_cons_of_mem hmem
  have hnew' : move cell ∉ above.map move := by
    intro himage
    obtain ⟨listed, hold, hsame⟩ := List.mem_map.1 himage
    have hholds : sheet.Holds listed :=
      hruns.listed listed (Trail.mem_toList.1 (hsplit ▸ List.mem_append_left _ hold))
    exact hnew (h.injOn hholds inside hsame ▸ hold)
  simp only [Trail.circleThrough_eq, hway, if_pos hmem, if_pos hmem']
  rw [hsplit, List.map_append, List.map_cons, Trail.dropWhile_append_cons hnew,
    Trail.dropWhile_append_cons hnew', List.map_append, List.map_cons, List.map_cons,
    List.map_nil]

/-- The circle that is closed at an image is the image of the one that is closed at the
cell. -/
theorem Mirrors.circleAt (h : sheet.Mirrors image move) (hruns : run.Mirrors move other)
    (inside : sheet.Holds cell) (hlisted : cell ∈ run.trail) :
    (Fault.circular (sheet.circleAt run cell)).Mirrors move
      (.circular (image.circleAt other (move cell))) := by
  refine .circular ?_ rfl (h.circleThrough hruns inside hlisted)
  simp only [Sheet.circleAt, Trail.last?, hruns.trail, List.head?_map]
  cases run.trail.latestFirst.head? <;> rfl

theorem Mirrors.computeBody (h : sheet.Mirrors image move) (hruns : run.Mirrors move other)
    (inside : sheet.Holds cell)
    (hfollowed : ∀ target text text' later later', sheet.Holds target →
      (run.enter (sheet.index cell inside) cell).Leads later → later.Mirrors move later' →
      Mirrored move
          (sheet.compute target (later.follow (sheet.index cell inside) text)).1
          (image.compute (move target)
            (later'.follow (image.index (move cell) (h.holds inside)) text')).1 ∧
        (sheet.compute target (later.follow (sheet.index cell inside) text)).2.Mirrors move
          (image.compute (move target)
            (later'.follow (image.index (move cell) (h.holds inside)) text')).2) :
    Mirrored move (sheet.computeBody cell inside run).1
        (image.computeBody (move cell) (h.holds inside) other).1 ∧
      (sheet.computeBody cell inside run).2.Mirrors move
        (image.computeBody (move cell) (h.holds inside) other).2 := by
  have hagree := Site.evaluate_mirrors (sheet.site cell inside)
    (image.site (move cell) (h.holds inside)) rfl
    (f := fun target reference later =>
      sheet.compute target (later.follow (sheet.index cell inside) reference))
    (g := fun target reference later =>
      image.compute target (later.follow (image.index (move cell) (h.holds inside)) reference))
    (R := fun later later' =>
      (run.enter (sheet.index cell inside) cell).Leads later ∧ later.Mirrors move later')
    (by
      rintro text text' target later later' hlocated ⟨hleads, hlater⟩
      obtain ⟨hanswer, hnext⟩ := hfollowed target text text' later later'
        (Address.holds_of_locate hlocated) hleads hlater
      refine ⟨hanswer, ?_, hnext⟩
      exact (hleads.trans (later.leads_follow _ text)).trans (sheet.leads_compute target _))
    (h.tokens cell inside (h.holds inside)) ⟨.refl _, h.enter hruns inside⟩
  exact ⟨hagree.1, hagree.2.2⟩

/-- The evaluation of an image goes as that of the cell does. -/
theorem Mirrors.compute (h : sheet.Mirrors image move) (inside : sheet.Holds cell)
    (hruns : run.Mirrors move other) :
    Mirrored move (sheet.compute cell run).1 (image.compute (move cell) other).1 ∧
      (sheet.compute cell run).2.Mirrors move (image.compute (move cell) other).2 := by
  induction cell, run using compute_induction generalizing other with
  | hstep cell run ih =>
      rcases sheet.compute_cases cell run with
        houtside | ⟨_, ⟨value, hvalue⟩ | hguarded | hopen⟩
      · exact absurd inside houtside
      · have hvalue' := (hruns.mark cell inside (h.holds inside)).trans hvalue
        rw [compute_of_done inside hvalue, compute_of_done _ hvalue']
        exact ⟨.ok value, hruns⟩
      · have hguarded' := (h.guarded_iff hruns inside).2 hguarded
        have hlisted : cell ∈ run.trail := address_index inside ▸ hguarded.2
        rw [compute_of_guarded inside hguarded, compute_of_guarded _ hguarded']
        exact ⟨.error (h.circleAt hruns inside hlisted), hruns⟩
      · obtain ⟨hanswer, hnext⟩ := h.computeBody hruns inside
          fun target text text' later later' hholds hleads hlater =>
            ih inside hopen target text later hleads hholds (hlater.follow _ _ text text')
        rw [compute_of_open hopen, compute_of_open (h.opens hruns hopen)]
        generalize sheet.computeBody cell inside run = outcome at *
        generalize image.computeBody (move cell) (h.holds inside) other = outcome' at *
        obtain ⟨answer, later⟩ := outcome
        obtain ⟨answer', later'⟩ := outcome'
        cases hanswer with
        | ok value => exact ⟨.ok value, h.finish hnext inside value⟩
        | error hmirrors => exact ⟨.error hmirrors, hnext⟩

theorem Mirrors.computeEach (h : sheet.Mirrors image move) {cells : List Address}
    (hholds : ∀ cell ∈ cells, sheet.Holds cell) {progress : Progress sheet.size}
    {progress' : Progress image.size}
    (hruns : Run.Mirrors move (⟨progress, .empty⟩ : Run sheet) ⟨progress', .empty⟩) :
    Mirrored move (sheet.computeEach cells progress).1
        (image.computeEach (cells.map move) progress').1 ∧
      Run.Mirrors move (⟨(sheet.computeEach cells progress).2, .empty⟩ : Run sheet)
        ⟨(image.computeEach (cells.map move) progress').2, .empty⟩ := by
  induction cells generalizing progress progress' with
  | nil => exact ⟨.ok (), hruns⟩
  | cons cell rest ih =>
      obtain ⟨hanswer, hnext⟩ := h.compute (hholds cell List.mem_cons_self) hruns
      rw [List.map_cons, Sheet.computeEach, Sheet.computeEach]
      generalize sheet.compute cell ⟨progress, .empty⟩ = outcome at *
      generalize image.compute (move cell) ⟨progress', .empty⟩ = outcome' at *
      obtain ⟨answer, run⟩ := outcome
      obtain ⟨answer', run'⟩ := outcome'
      cases hanswer with
      | ok value =>
          exact ih (fun other hother => hholds other (List.mem_cons_of_mem cell hother))
            hnext.restart
      | error hmirrors => exact ⟨.error hmirrors, hnext.restart⟩

end Sheet

end PostfixSheet
