/-
Evaluations that fail once more.

A failed evaluation that is started again finds its chain of entered cells and all values
on the way in place.  It goes down the same chain, follows the same references last, and
fails in the same way; nothing changes but the number of formulas that have been run.
-/
import PostfixSheet.Proofs.Descent
import PostfixSheet.Proofs.Lookups

namespace PostfixSheet

namespace Sheet

variable {sheet : Sheet} {cell target : Address} {text : String} {fault : Fault}
  {progress earlier later : Progress sheet.size} {place : Fin sheet.size}
  {run current last again : Run sheet}

/-- The same records, however many formulas have been run. -/
structure Alike (left right : Progress sheet.size) : Prop where
  mark : ∀ place, left.mark place = right.mark place
  lastReference : ∀ place, left.lastReference place = right.lastReference place

theorem Alike.symm (h : Alike earlier later) : Alike later earlier :=
  ⟨fun place => (h.mark place).symm, fun place => (h.lastReference place).symm⟩

theorem Alike.trans (h : Alike progress earlier) (h' : Alike earlier later) :
    Alike progress later :=
  ⟨fun place => (h.mark place).trans (h'.mark place),
    fun place => (h.lastReference place).trans (h'.lastReference place)⟩

theorem Regular.of_alike (h : sheet.Regular earlier) (halike : Alike later earlier) :
    sheet.Regular later where
  consistent := h.consistent.of_marks halike.mark
  recorded := {
    untouched := by
      intro place huntouched
      rw [halike.mark] at huntouched
      rw [halike.lastReference]
      exact h.recorded.untouched place huntouched
    done := by
      intro place hdone
      rw [halike.mark] at hdone
      rw [halike.lastReference]
      exact h.recorded.done place hdone }

def lookupFrom (sheet : Sheet) (place : Fin sheet.size) : Lookup (Run sheet) :=
  fun target text later => sheet.compute target (later.follow place text)

theorem computeBody_state (inside : sheet.Holds cell) (run : Run sheet) :
    (sheet.computeBody cell inside run).2 =
      Lookup.each (sheet.lookupFrom (sheet.index cell inside)) (sheet.site cell inside).lookups
        (run.enter (sheet.index cell inside) cell) :=
  (sheet.site cell inside).evaluate_state _ _

theorem leads_each (place : Fin sheet.size) (lookups : List (String × Address))
    (run : Run sheet) : run.Leads (Lookup.each (sheet.lookupFrom place) lookups run) := by
  induction lookups generalizing run with
  | nil => exact .refl run
  | cons lookup rest ih =>
      obtain ⟨text, target⟩ := lookup
      have hnext : run.Leads (sheet.lookupFrom place target text run).2 :=
        (run.leads_follow place text).trans (sheet.leads_compute target _)
      rcases hanswer : sheet.lookupFrom place target text run with ⟨fault | value, next⟩
      · rw [Lookup.each_of_error hanswer]
        rwa [hanswer] at hnext
      · rw [Lookup.each_of_ok hanswer]
        rw [hanswer] at hnext
        exact hnext.trans (ih next)

/-- A failure of this cell, once more on what it has left behind, changes no record. -/
def Repeats (sheet : Sheet) (cell : Address) (run : Run sheet) : Prop :=
  ∀ fault, (sheet.compute cell run).1 = .error fault → ∀ again : Run sheet,
    again.trail = run.trail → Alike again.progress (sheet.compute cell run).2.progress →
    Alike (sheet.compute cell again).2.progress again.progress

/-- The second time through a formula, on the records that the first time ends with.
The latest reference of its cell is still that, or as far as the first time has come. -/
structure Retraces (place : Fin sheet.size) (last current again : Run sheet) : Prop where
  mark : ∀ other, again.progress.mark other = last.progress.mark other
  lastReference : ∀ other, other ≠ place →
    again.progress.lastReference other = last.progress.lastReference other
  self : again.progress.lastReference place = last.progress.lastReference place ∨
    again.progress.lastReference place = current.progress.lastReference place

theorem Retraces.enter (halike : Alike again.progress last.progress)
    (hstarted : last.progress.mark place = .started) (cell : Address) (current : Run sheet) :
    Retraces place last current (again.enter place cell) where
  mark := by
    intro other
    rw [Run.enter, Progress.mark_start]
    split
    · rename_i hsame
      rw [← hsame, hstarted]
    · exact halike.mark other
  lastReference := by
    intro other _
    rw [Run.enter, Progress.lastReference_start, halike.lastReference]
  self := by
    left
    rw [Run.enter, Progress.lastReference_start, halike.lastReference]

theorem Retraces.alike (h : Retraces place last last again) :
    Alike again.progress last.progress where
  mark := h.mark
  lastReference := by
    intro other
    by_cases hsame : other = place
    · subst hsame
      exact h.self.elim id id
    · exact h.lastReference other hsame

/-- Following a reference that the first time has followed as well. -/
theorem Retraces.follow {next : Run sheet} (h : Retraces place last current again)
    (hreference : next.progress.lastReference place = some text) :
    Retraces place last next (again.follow place text) where
  mark := by
    intro other
    rw [Run.follow, Progress.mark_follow, h.mark]
  lastReference := by
    intro other hne
    rw [Run.follow, Progress.lastReference_follow, if_neg hne.symm, h.lastReference other hne]
  self := by
    right
    rw [hreference]
    simp [Run.follow]

/-- A reference whose cell has got its value since is followed, and no more. -/
theorem Retraces.lookup_of_done (h : Retraces place last current again)
    (htarget : sheet.Holds target) (hdone : last.Done (sheet.index target htarget))
    (text : String) : ∃ known, sheet.lookupFrom place target text again =
      (.ok known, again.follow place text) := by
  obtain ⟨known, hknown⟩ := Mark.isDone_iff.1 hdone
  refine ⟨known, compute_of_done htarget ?_⟩
  rw [Run.follow, Progress.mark_follow, h.mark, hknown]

/-- The reference that the first time has failed at is followed last this time as well, and
fails. -/
theorem Retraces.lookup_of_error {inside : sheet.Holds cell}
    (hdescending : sheet.Descending cell inside run current) (htarget : sheet.Holds target)
    (hfailed : sheet.lookupFrom (sheet.index cell inside) target text current =
      (.error fault, last))
    (h : Retraces (sheet.index cell inside) last current again) :
    (∃ fault', (sheet.lookupFrom (sheet.index cell inside) target text again).1 =
        .error fault') ∧
      Alike (again.follow (sheet.index cell inside) text).progress last.progress := by
  have hanswer : (sheet.compute target (current.follow (sheet.index cell inside) text)).1 =
      .error fault := congrArg Prod.fst hfailed
  have hregular := hdescending.regular.follow hdescending.started text
  obtain ⟨chain, hstranded, -⟩ :=
    compute_stranded htarget hregular (hdescending.entered.follow _ text) fault hanswer
  obtain ⟨-, hkept⟩ := hdescending.stranded_self hstranded
  obtain rfl : (sheet.compute target (current.follow (sheet.index cell inside) text)).2 = last :=
    congrArg Prod.snd hfailed
  have hfollowed := (h.follow hkept).alike
  have hnone := hregular.consistent.not_hasValue_of_error hanswer
  exact ⟨(hstranded.regular.of_alike hfollowed).consistent.exists_error hnone, hfollowed⟩

/-- Lookups made again, on the records that they have left behind, leave them so. -/
theorem each_again {inside : sheet.Holds cell}
    (hrepeats : ∀ target text current, sheet.Descending cell inside run current →
      sheet.Repeats target (current.follow (sheet.index cell inside) text))
    (lookups : List (String × Address)) (hholds : ∀ lookup ∈ lookups, sheet.Holds lookup.2)
    (hdescending : sheet.Descending cell inside run current)
    (hlast : Lookup.each (sheet.lookupFrom (sheet.index cell inside)) lookups current = last)
    (htrail : again.trail = current.trail)
    (hretraces : Retraces (sheet.index cell inside) last current again) :
    Alike (Lookup.each (sheet.lookupFrom (sheet.index cell inside)) lookups again).progress
      last.progress := by
  induction lookups generalizing current again with
  | nil =>
      obtain rfl : current = last := hlast
      exact hretraces.alike
  | cons lookup rest ih =>
      obtain ⟨text, target⟩ := lookup
      have htarget : sheet.Holds target := hholds _ List.mem_cons_self
      rcases hanswer : sheet.lookupFrom (sheet.index cell inside) target text current with
        ⟨answer, next⟩
      have hstate : (sheet.compute target (current.follow (sheet.index cell inside) text)).2 =
          next := congrArg Prod.snd hanswer
      rcases answer with fault | value
      · -- the first time ends here, with this reference as the latest one
        rw [Lookup.each_of_error hanswer] at hlast
        obtain rfl : next = last := hlast
        obtain ⟨⟨fault', hfault'⟩, hfollowed⟩ :=
          hretraces.lookup_of_error hdescending htarget hanswer
        have hstays := hrepeats target text current hdescending fault (congrArg Prod.fst hanswer)
          (again.follow (sheet.index cell inside) text) htrail
        rw [hstate] at hstays
        rw [Lookup.each_of_error (Prod.ext hfault' rfl)]
        exact (hstays hfollowed).trans hfollowed
      · -- the value is there already
        obtain ⟨hnext, hreference⟩ := hdescending.follow (congrArg Prod.fst hanswer)
        rw [hstate] at hnext hreference
        rw [Lookup.each_of_ok hanswer] at hlast
        have hleads := sheet.leads_each (sheet.index cell inside) rest next
        rw [hlast] at hleads
        obtain ⟨known, hknown⟩ := hretraces.lookup_of_done htarget
          (hleads.1 _ (done_of_compute_eq_ok htarget hanswer)) text
        rw [Lookup.each_of_ok hknown]
        apply ih (fun lookup hlookup => hholds lookup (List.mem_cons_of_mem _ hlookup)) hnext hlast
        · exact htrail.trans (hdescending.trail_eq.trans hnext.trail_eq.symm)
        · exact hretraces.follow hreference

/-- A failed evaluation that is started again changes no record. -/
theorem repeats_compute (cell : Address) (run : Run sheet) (hregular : sheet.Regular run.progress)
    (hentered : Entered run) : sheet.Repeats cell run := by
  induction cell, run using compute_induction with
  | hstep cell run ih =>
      intro fault hfailed again htrail halike
      have hnone := hregular.consistent.not_hasValue_of_error hfailed
      rcases sheet.compute_cases cell run with
        houtside | ⟨inside, ⟨known, hknown⟩ | hguarded | hopen⟩
      · rw [compute_of_not_holds houtside]
        exact ⟨fun _ => rfl, fun _ => rfl⟩
      · rw [compute_of_done inside hknown] at hfailed
        cases hfailed
      · rw [compute_of_guarded inside hguarded] at halike
        have hguarded' : again.Guarded (sheet.index cell inside) :=
          ⟨(halike.mark _).trans hguarded.1, htrail.symm ▸ hguarded.2⟩
        rw [compute_of_guarded inside hguarded']
        exact ⟨fun _ => rfl, fun _ => rfl⟩
      · have hnew := hentered.not_mem hopen
        obtain ⟨chain, hstranded, -, hhead⟩ :=
          compute_stranded inside hregular hentered fault hfailed
        have hmem : cell ∈ chain := by
          rcases hhead with hfirst | ⟨-, hlisted⟩
          · exact List.mem_of_mem_head? hfirst
          · exact absurd hlisted hnew
        obtain ⟨_, hstarted⟩ := hstranded.started cell hmem
        have hstarted' := (halike.mark _).trans hstarted
        have hopen' : again.Open (sheet.index cell inside) := by
          constructor
          · simp [Run.Done, hstarted', Mark.isDone]
          · rintro ⟨-, hlisted⟩
            rw [address_index, htrail] at hlisted
            exact hnew hlisted
        have hagain : sheet.Regular again.progress := (hregular.compute cell).of_alike halike
        obtain ⟨fault', hfault'⟩ := hagain.consistent.computeBody_error hnone hopen'
        have hbody := (compute_answer_of_open hopen).symm.trans hfailed
        rw [compute_error_of_open hopen hbody] at hstarted halike
        rw [compute_error_of_open hopen' hfault', computeBody_state]
        refine (each_again ?_ _ ?_ (Descending.enter hregular hentered hnone hopen)
          (computeBody_state inside run).symm ?_ ?_).trans halike.symm
        · intro target text current hdescending
          exact ih inside hopen target text current hdescending.leads
            (hdescending.regular.follow hdescending.started text)
            (hdescending.entered.follow _ text)
        · rintro ⟨text, target⟩ hlookup
          obtain ⟨htext, hlocated⟩ := Site.of_mem_lookupsFrom hlookup
          exact ((refers_iff inside).2 ⟨text, htext, hlocated⟩).holds
        · exact congrArg (Trail.push · cell) htrail
        · exact Retraces.enter halike hstarted cell _

end Sheet

end PostfixSheet
