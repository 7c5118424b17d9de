/-
What a run of the command prints and what it leaves behind.

A run reads, calculates and writes, in this order, and what it does is decided by how far it
comes.  Values are handed over only when there is all of their text; a run that fails prints
why, and the only file that it may have touched is one that was opened for such a text.  This
is shown for every system and every library of reports that keep their promises, and whatever
the arguments are read by.
-/
import PostfixSheet.Proofs.Hosting
import PostfixSheet.Proofs.Lifecycle
import PostfixSheet.Proofs.Reading

namespace PostfixSheet

open Text

namespace Path

/-- A name that leads no further than a dash: the dash itself, or one with slashes and single
dots behind it. -/
inductive Dashed : List Char → Prop
  | dash : Dashed ['-']
  | slash {cs : List Char} : Dashed cs → Dashed (cs ++ ['/'])
  | dot {cs : List Char} : Dashed cs → Dashed (cs ++ ['/', '.'])

theorem splitOn_slash (cs ds : List Char) :
    (cs ++ '/' :: ds).splitOn '/' = cs.splitOn '/' ++ ds.splitOn '/' :=
  List.splitOnP_append_cons cs ds (beq_self_eq_true '/')

theorem isDash_eq_true_iff {path : String} :
    isDash path = true ↔ ∃ rest, path.toList.splitOn '/' = ['-'] :: rest ∧
      ∀ part ∈ rest, part = [] ∨ part = ['.'] := by
  have hidle : ∀ part : List Char,
      isIdle (String.ofList part) = true ↔ part = [] ∨ part = ['.'] := by
    intro part
    simp [isIdle, String.ext_iff]
  have hdash : ∀ part : List Char, String.ofList part = "-" ↔ part = ['-'] := by
    intro part
    simp [String.ext_iff]
  unfold isDash parts
  cases path.toList.splitOn '/' with
  | nil => simp
  | cons first rest => simp [hidle, hdash]

theorem intercalate_slash (first : List Char) (rest : List (List Char)) :
    ['/'].intercalate (first :: rest) = first ++ rest.flatMap ('/' :: ·) := by
  induction rest generalizing first with
  | nil => simp
  | cons second rest ih => simp [List.intercalate_cons_cons, ih]

theorem dashed_of_idle {rest : List (List Char)} (h : ∀ part ∈ rest, part = [] ∨ part = ['.']) :
    Dashed ('-' :: rest.flatMap ('/' :: ·)) := by
  induction rest using List.reverseRecOn with
  | nil => exact .dash
  | append_singleton rest part ih =>
      have hrest := ih fun other hother => h other (List.mem_append_left _ hother)
      rw [List.flatMap_append, List.flatMap_singleton, ← List.cons_append]
      rcases h part (List.mem_append_right _ (List.mem_singleton_self part)) with rfl | rfl
      · exact hrest.slash
      · exact hrest.dot

theorem Dashed.splitOn {cs : List Char} (h : Dashed cs) :
    ∃ rest, cs.splitOn '/' = ['-'] :: rest ∧ ∀ part ∈ rest, part = [] ∨ part = ['.'] := by
  induction h with
  | dash => exact ⟨[], by decide, by simp⟩
  | slash _ ih =>
      obtain ⟨rest, hsplit, hidle⟩ := ih
      refine ⟨rest ++ [[]], ?_, ?_⟩
      · rw [splitOn_slash, hsplit]
        rfl
      · simpa [or_imp, forall_and] using hidle
  | dot _ ih =>
      obtain ⟨rest, hsplit, hidle⟩ := ih
      refine ⟨rest ++ [['.']], ?_, ?_⟩
      · rw [splitOn_slash, hsplit]
        rfl
      · simpa [or_imp, forall_and] using hidle

/-- The names that stand for standard input are those of a dash. -/
theorem isDash_iff_dashed {path : String} : isDash path = true ↔ Dashed path.toList := by
  rw [isDash_eq_true_iff]
  constructor
  · rintro ⟨rest, hsplit, hidle⟩
    have hjoined : ['/'].intercalate (path.toList.splitOn '/') = path.toList :=
      List.intercalate_splitOn '/'
    rw [hsplit, intercalate_slash] at hjoined
    rw [← hjoined]
    exact dashed_of_idle hidle
  · exact Dashed.splitOn

end Path

namespace Command

/-- Why a run comes to nothing: the problem, and what was being done. -/
structure Failure where
  doing : Option String
  problem : Problem
  deriving DecidableEq

/-- What is told of a failure. -/
def Failure.diagnostic (failure : Failure) : String :=
  match failure.doing with
  | none => failure.problem.story
  | some doing => doing ++ ": " ++ failure.problem.story

/-- The text that bytes come to, which are read as a sheet, calculated and written.  If they
are those of a file, it is told of what they come short of. -/
def valuesText (source : Option String) (places : Nat) (content : Except FileFault (List UInt8)) :
    Except Failure String :=
  match content.mapError (fun fault => .io (.file fault)) >>= SheetText.read with
  | .error problem => .error ⟨source.map fun path => s!"Failed to load {path}", problem⟩
  | .ok sheet =>
    match sheet.computeAll (.fresh _) with
    | (.error fault, _) => .error ⟨none, .formula fault⟩
    | (.ok (), progress) =>
      match Results.write sheet progress places .unbounded with
      | (.error problem, _) => .error ⟨none, problem⟩
      | (.ok (), sink) => .ok sink.received

variable {World File Report : Type}

/-- The bytes of a run are taken in, from the file `source` or from standard input if there is
none, and a world is left. -/
inductive Taken (host : Host (StateM World) File) (settings : Settings) (world : World) :
    (source : Option String) → Except FileFault (List UInt8) → World → Prop
  | absent {content : Except FileFault (List UInt8)} {taken : World} :
      settings.input = none → host.input.run world = (content, taken) →
      Taken host settings world none content taken
  | dash {path : String} {content : Except FileFault (List UInt8)} {taken : World} :
      settings.input = some path → Path.Dashed path.toList →
      host.input.run world = (content, taken) → Taken host settings world none content taken
  | named {path : String} {content : Except FileFault (List UInt8)} {taken : World} :
      settings.input = some path → ¬Path.Dashed path.toList →
      (host.read path).run world = (content, taken) →
      Taken host settings world (some path) content taken

/-- What a run does that has taken in its bytes and found their values, or none: the status
it ends with, and the world that it leaves. -/
structure Answers (host : Host (StateM World) File) (view : View World File)
    (settings : Settings) (values : Except Failure String) (world taken : World)
    (answer : Status × World) : Prop where
  /-- If no file is named for the values, they are printed. -/
  printed : ∀ text, values = .ok text → settings.output = none →
    answer.1.code = 0 ∧ view.printed answer.2 = view.printed world ++ text ∧
      view.content answer.2 = view.content world
  /-- A file that can be opened and written holds the values, and no other file changes. -/
  filed : ∀ text path file created last, values = .ok text → settings.output = some path →
    (host.create path).run taken = (.ok file, created) →
    (host.write file (encode text)).run created = (.ok (), last) →
    answer.1.code = 0 ∧ view.printed answer.2 = view.printed world ∧
      view.content answer.2 file = some (encode text) ∧
      ∀ other, other ≠ file → view.content answer.2 other = view.content world other
  /-- A file that can be opened may fail to take the values.  No other file changes. -/
  unfinished : ∀ text path file created fault last, values = .ok text →
    settings.output = some path → (host.create path).run taken = (.ok file, created) →
    (host.write file (encode text)).run created = (.error fault, last) →
    answer.1.code = 1 ∧
      view.printed answer.2 =
        view.printed world ++ (s!"IO error: {fault.message}: {fault.message}" ++ "\n") ∧
      ∀ other, other ≠ file → view.content answer.2 other = view.content world other
  /-- If the file cannot be opened, nothing has changed. -/
  notCreated : ∀ text path fault last, values = .ok text → settings.output = some path →
    (host.create path).run taken = (.error fault, last) →
    answer.1.code = 1 ∧
      view.printed answer.2 =
        view.printed world ++ (s!"Failed to create {path}: {fault.message}" ++ "\n") ∧
      view.content answer.2 = view.content world
  /-- Nothing has changed either if there are no values. -/
  failed : ∀ failure, values = .error failure →
    (answer.1.code = 2 ↔ ∃ fault, failure.problem = .text fault) ∧
    (answer.1.code = 1 ↔ ¬∃ fault, failure.problem = .text fault) ∧
    view.printed answer.2 = view.printed world ++ (failure.diagnostic ++ "\n") ∧
    view.content answer.2 = view.content world

section Steps

variable {Fault Result Next : Type} {world later : World}
  {next : Result → ExceptT Fault (StateM World) Next}

/-- An action of the system is carried out, and the run goes on. -/
theorem run_lift_bind {action : StateM World Result} {result : Result}
    (h : action.run world = (result, later)) :
    ((liftM action : ExceptT Fault (StateM World) Result) >>= next).run.run world =
      (next result).run.run later := by
  change (fun after : Result × World => (next after.1).run.run after.2) (action.run world) = _
  rw [h]

theorem run_bind_of_ok {action : ExceptT Fault (StateM World) Result} {result : Result}
    (h : action.run.run world = (.ok result, later)) :
    (action >>= next).run.run world = (next result).run.run later := by
  rw [ExceptT.run_bind, StateT.run_bind, h]
  rfl

theorem run_bind_of_error {action : ExceptT Fault (StateM World) Result} {fault : Fault}
    (h : action.run.run world = (.error fault, later)) :
    (action >>= next).run.run world = (.error fault, later) := by
  rw [ExceptT.run_bind, StateT.run_bind, h]
  rfl

theorem run_orReport (report : Fault → Report) (answer : Except Fault Result) (world : World) :
    (orReport (m := StateM World) report answer).run.run world =
      (answer.mapError fun fault => .report (report fault), world) := by
  cases answer <;> rfl

end Steps

variable {host : Host (StateM World) File} {view : View World File} {reports : Reports Report}
  {settings : Settings} {source : Option String} {content : Except FileFault (List UInt8)}
  {failure : Failure} {document : Document} {text path : String} {file : File}
  {world taken created last : World} {fault : FileFault}

def Failure.report (reports : Reports Report) (failure : Failure) : Report :=
  match failure.doing with
  | none => reports.ofProblem failure.problem
  | some doing => reports.within doing (reports.ofProblem failure.problem)

theorem story_report (hreports : reports.Lawful) (failure : Failure) :
    reports.story (failure.report reports) = failure.diagnostic := by
  obtain ⟨_ | doing, problem⟩ := failure
  · exact hreports.story_ofProblem problem
  · rw [Failure.report, hreports.story_within, hreports.story_ofProblem]
    rfl

theorem problem?_report (hreports : reports.Lawful) (failure : Failure) :
    reports.problem? (failure.report reports) = some failure.problem := by
  obtain ⟨_ | doing, problem⟩ := failure
  · exact hreports.problem?_ofProblem problem
  · rw [Failure.report, hreports.problem?_within, hreports.problem?_ofProblem]

theorem story_file (fault : FileFault) :
    (Problem.io (.file fault)).story = s!"IO error: {fault.message}: {fault.message}" := by
  change ": ".intercalate [s!"IO error: {fault.message}", fault.message] = _
  rw [String.intercalate_cons_cons, String.intercalate_singleton]
  rfl

theorem exists_write_of_computed {sheet : Sheet} {progress : Progress sheet.size} {places : Nat}
    (hplaces : places ≤ Decimal.maxPlaces)
    (hcomputed : sheet.computeAll (.fresh _) = (.ok (), progress)) :
    ∃ text, Results.write sheet progress places .unbounded = (.ok (), ⟨none, text⟩) :=
  Results.exists_write_eq_ok (Sheet.complete_of_computeAll_eq hcomputed) hplaces

/-- A failure comes from bytes that are not there or not those of a sheet, or from its
formulas. -/
theorem problem_of_valuesText {places : Nat} (hplaces : places ≤ Decimal.maxPlaces)
    (h : valuesText source places content = .error failure) :
    (∃ fault, failure.problem = .text fault) ∨ (∃ fault, failure.problem = .io fault) ∨
      ∃ fault, failure.problem = .formula fault := by
  unfold valuesText at h
  split at h
  · rename_i problem hread
    cases h
    rcases bind_eq_error_iff.1 hread with hcontent | ⟨bytes, -, hread⟩
    · obtain ⟨fault, -, rfl⟩ := mapError_eq_error_iff.1 hcontent
      exact Or.inr (Or.inl ⟨_, rfl⟩)
    · rcases SheetText.readLines_eq_error hread with rfl | ⟨fault, htext, -⟩
      · exact Or.inr (Or.inl ⟨_, rfl⟩)
      · exact Or.inl ⟨fault, htext⟩
  · rename_i sheet hread
    split at h
    · cases h
      exact Or.inr (Or.inr ⟨_, rfl⟩)
    · rename_i progress hcomputed
      obtain ⟨text, hwritten⟩ := exists_write_of_computed hplaces hcomputed
      rw [hwritten] at h
      cases h

/-- The status tells sheets that cannot be used from all other failures. -/
theorem code_report {places : Nat} (hreports : reports.Lawful)
    (hplaces : places ≤ Decimal.maxPlaces)
    (h : valuesText source places content = .error failure) :
    ((Status.ofReport reports (failure.report reports)).code = 2 ↔
      ∃ fault, failure.problem = .text fault) ∧
    ((Status.ofReport reports (failure.report reports)).code = 1 ↔
      ¬∃ fault, failure.problem = .text fault) := by
  rw [Status.ofReport, problem?_report hreports]
  rcases problem_of_valuesText hplaces h with
    ⟨fault, hproblem⟩ | ⟨fault, hproblem⟩ | ⟨fault, hproblem⟩
  all_goals simp [hproblem, Status.code]

theorem exists_taken (host : Host (StateM World) File) (settings : Settings) (world : World) :
    ∃ source content taken, Taken host settings world source content taken := by
  cases hinput : settings.input with
  | none => exact ⟨none, _, _, .absent hinput rfl⟩
  | some path =>
      by_cases hdashed : Path.Dashed path.toList
      · exact ⟨none, _, _, .dash hinput hdashed rfl⟩
      · exact ⟨some path, _, _, .named hinput hdashed rfl⟩

theorem Taken.same (h : Taken host settings world source content taken)
    (hhost : host.Lawful view) : view.Same world taken := by
  cases h with
  | absent _ hanswer => exact hhost.input_same hanswer
  | dash _ _ hanswer => exact hhost.input_same hanswer
  | named _ _ hanswer => exact hhost.read_same hanswer

/-- The document of a run is the one of the bytes that are taken in. -/
theorem run_load (reports : Reports Report) (h : Taken host settings world source content taken) :
    (load host reports settings).run.run world =
      ((Document.load source content).mapError fun problem =>
        .report (Failure.report reports
          ⟨source.map fun path => s!"Failed to load {path}", problem⟩), taken) := by
  cases h with
  | absent hinput hanswer =>
      rw [load, hinput]
      exact (run_lift_bind hanswer).trans (run_orReport _ _ _)
  | dash hinput hdashed hanswer =>
      rw [load, hinput, Option.filter_some, Path.isDash_iff_dashed.2 hdashed]
      exact (run_lift_bind hanswer).trans (run_orReport _ _ _)
  | named hinput hdashed hanswer =>
      rw [load, hinput, Option.filter_some,
        Bool.eq_false_iff.2 (mt Path.isDash_iff_dashed.1 hdashed)]
      exact (run_lift_bind hanswer).trans (run_orReport _ _ _)

theorem run_of_failure (htaken : Taken host settings world source content taken)
    (hplaces : settings.places ≤ Decimal.maxPlaces)
    (h : valuesText source settings.places content = .error failure) :
    (run host reports settings).run.run world =
      (.error (.report (failure.report reports)), taken) := by
  have hloaded := run_load reports htaken
  rw [Document.load_eq] at hloaded
  unfold valuesText at h
  split at h
  · rename_i problem hread
    cases h
    rw [hread] at hloaded
    exact run_bind_of_error hloaded
  · rename_i sheet hread
    rw [hread] at hloaded
    refine (run_bind_of_ok hloaded).trans ?_
    split at h
    · rename_i fault progress hcomputed
      cases h
      have hcalculated : (Document.ofSheet sheet source).calculate =
          (.error fault, ⟨sheet, progress, source, false⟩) :=
        Document.calculate_of_error hcomputed
      beta_reduce
      rw [hcalculated]
      exact run_bind_of_error (run_orReport _ _ _)
    · rename_i progress hcomputed
      obtain ⟨text, hwritten⟩ := exists_write_of_computed hplaces hcomputed
      rw [hwritten] at h
      cases h

/-- With values a run goes on to hand them over. -/
theorem exists_run_of_text (reports : Reports Report)
    (htaken : Taken host settings world source content taken)
    (hplaces : settings.places ≤ Decimal.maxPlaces)
    (h : valuesText source settings.places content = .ok text) :
    ∃ document : Document, document.write settings.places .unbounded = (.ok (), ⟨none, text⟩) ∧
      (run host reports settings).run.run world =
        (deliver host reports settings document).run.run taken := by
  have hloaded := run_load reports htaken
  rw [Document.load_eq] at hloaded
  unfold valuesText at h
  split at h
  · cases h
  · rename_i sheet hread
    rw [hread] at hloaded
    split at h
    · cases h
    · rename_i progress hcomputed
      obtain ⟨written, hwritten⟩ := exists_write_of_computed hplaces hcomputed
      rw [hwritten] at h
      cases h
      refine ⟨⟨sheet, progress, source, true⟩, hwritten, (run_bind_of_ok hloaded).trans ?_⟩
      have hcalculated : (Document.ofSheet sheet source).calculate =
          (.ok (), ⟨sheet, progress, source, true⟩) :=
        Document.calculate_of_ok hcomputed
      beta_reduce
      rw [hcalculated]
      exact run_bind_of_ok (run_orReport _ _ _)

theorem run_handOver (hwrite : document.write settings.places .unbounded = (.ok (), ⟨none, text⟩))
    {give : String → StateM World (Except FileFault Unit)} {given : Except FileFault Unit}
    (hgive : (give text).run world = (given, last)) :
    (handOver reports give settings document).run.run world =
      (given.mapError fun fault => .report (reports.ofProblem (.io (.file fault))), last) := by
  rw [handOver, hwrite]
  refine (run_lift_bind hgive).trans ?_
  cases given <;> rfl

theorem run_deliver_of_created
    (hwrite : document.write settings.places .unbounded = (.ok (), ⟨none, text⟩))
    (hpath : settings.output = some path)
    (hcreate : (host.create path).run taken = (.ok file, created))
    {given : Except FileFault Unit}
    (hgive : (host.write file (encode text)).run created = (given, last)) :
    (deliver host reports settings document).run.run taken =
      (given.mapError fun fault => .report (reports.ofProblem (.io (.file fault))), last) := by
  rw [deliver, hpath]
  refine (run_lift_bind hcreate).trans ?_
  refine (run_bind_of_ok (run_orReport _ _ _)).trans ?_
  exact run_handOver hwrite hgive

theorem run_deliver_of_not_created (hpath : settings.output = some path)
    (hcreate : (host.create path).run taken = (.error fault, last)) :
    (deliver host reports settings document).run.run taken =
      (.error (.report (reports.within s!"Failed to create {path}" (reports.ofFile fault))),
        last) := by
  rw [deliver, hpath]
  refine (run_lift_bind hcreate).trans ?_
  exact run_bind_of_error (run_orReport _ _ _)

theorem conclude_of_ok (h : (run host reports settings).run.run world = (.ok (), last)) :
    (conclude host reports settings).run world = (.success, last) := by
  rw [conclude, StateT.run_bind, h]
  rfl

/-- A report is printed, and it decides the status. -/
theorem exists_conclude_of_report (hhost : host.Lawful view) {report : Report}
    (h : (run host reports settings).run.run world = (.error (.report report), taken)) :
    ∃ last, (conclude host reports settings).run world = (.ofReport reports report, last) ∧
      view.content last = view.content taken ∧
      view.printed last = view.printed taken ++ (reports.story report ++ "\n") := by
  obtain ⟨last, hprinted, hseen⟩ := hhost.printed (reports.story report ++ "\n") taken
  refine ⟨last, ?_, hseen⟩
  rw [conclude, StateT.run_bind, h]
  change (host.print _ >>= _).run taken = _
  rw [StateT.run_bind, hprinted]
  rfl

/-- What a run does is decided by whether it has values, and by what becomes of the file that
they go to. -/
theorem answers_conclude (hhost : host.Lawful view) (hreports : reports.Lawful)
    (htaken : Taken host settings world source content taken)
    (hplaces : settings.places ≤ Decimal.maxPlaces) :
    Answers host view settings (valuesText source settings.places content) world taken
      ((conclude host reports settings).run world) := by
  obtain ⟨hcontent, hprinted⟩ := htaken.same hhost
  constructor
  case printed =>
    intro text htext hnone
    obtain ⟨document, hwrite, hrun⟩ := exists_run_of_text reports htaken hplaces htext
    obtain ⟨last, hprint, hkept, hadded⟩ := hhost.printed text taken
    rw [deliver, hnone] at hrun
    rw [conclude_of_ok (hrun.trans (run_handOver hwrite hprint))]
    exact ⟨rfl, by rw [hadded, hprinted], by rw [hkept, hcontent]⟩
  case filed =>
    intro text path file created last htext hpath hcreate hgive
    obtain ⟨document, hwrite, hrun⟩ := exists_run_of_text reports htaken hplaces htext
    obtain ⟨hsilent, hempty, hothers⟩ := hhost.created hcreate
    obtain ⟨hquiet, hkept⟩ := hhost.write_other hgive
    rw [conclude_of_ok (hrun.trans (run_deliver_of_created hwrite hpath hcreate hgive))]
    refine ⟨rfl, by rw [hquiet, hsilent, hprinted], hhost.written hgive hempty, ?_⟩
    intro other hother
    rw [hkept other hother, hothers other hother, hcontent]
  case unfinished =>
    intro text path file created fault last htext hpath hcreate hgive
    obtain ⟨document, hwrite, hrun⟩ := exists_run_of_text reports htaken hplaces htext
    obtain ⟨hsilent, -, hothers⟩ := hhost.created hcreate
    obtain ⟨hquiet, hkept⟩ := hhost.write_other hgive
    obtain ⟨after, hconcluded, hsame, htold⟩ := exists_conclude_of_report hhost
      (hrun.trans (run_deliver_of_created hwrite hpath hcreate hgive))
    rw [hconcluded, Status.ofReport, hreports.problem?_ofProblem]
    refine ⟨rfl, ?_, ?_⟩
    · rw [htold, hquiet, hsilent, hprinted, hreports.story_ofProblem, story_file]
    · intro other hother
      rw [hsame, hkept other hother, hothers other hother, hcontent]
  case notCreated =>
    intro text path fault last htext hpath hcreate
    obtain ⟨document, hwrite, hrun⟩ := exists_run_of_text reports htaken hplaces htext
    obtain ⟨hkept, hsilent⟩ := hhost.not_created hcreate
    obtain ⟨after, hconcluded, hsame, htold⟩ := exists_conclude_of_report hhost
      (hrun.trans (run_deliver_of_not_created hpath hcreate))
    rw [hconcluded, Status.ofReport, hreports.problem?_within, hreports.problem?_ofFile]
    refine ⟨rfl, ?_, by rw [hsame, hkept, hcontent]⟩
    rw [htold, hsilent, hprinted, hreports.story_within, hreports.story_ofFile]
    rfl
  case failed =>
    intro failure hfailure
    obtain ⟨after, hconcluded, hsame, htold⟩ := exists_conclude_of_report hhost
      (run_of_failure htaken hplaces hfailure)
    obtain ⟨htwo, hone⟩ := code_report hreports hplaces hfailure
    rw [hconcluded]
    refine ⟨htwo, hone, ?_, by rw [hsame, hcontent]⟩
    rw [htold, hprinted, story_report hreports]

/-- A run prints or files the text of all values, or tells why there is none or why it could
not be filed.  Its bytes are those of the file that is named, or those of standard input if
none is or the name leads no further than a dash. -/
theorem answer_answers (hhost : host.Lawful view) (hreports : reports.Lawful)
    {reader : List String → Request} {arguments : List String}
    (hrun : reader arguments = .run settings) (hplaces : settings.places ≤ Decimal.maxPlaces)
    (world : World) :
    ∃ source content taken, Taken host settings world source content taken ∧
      Answers host view settings (valuesText source settings.places content) world taken
        ((answer host reports reader arguments).run world) := by
  obtain ⟨source, content, taken, htaken⟩ := exists_taken host settings world
  have hanswer : answer host reports reader arguments = conclude host reports settings := by
    rw [answer, hrun]
  exact ⟨source, content, taken, htaken, hanswer ▸ answers_conclude hhost hreports htaken hplaces⟩

namespace DeliveryWitness

def desk : Desk := ⟨⟨[("sheet.txt", encode "2 1\n6 3 /\nA1 ++\n"), ("notes.txt", [])]⟩, ""⟩

def arguments : List String := ["-vp", "1", "-o", "./sheet.txt", "sheet.txt"]

def chosen : Settings := ⟨some "sheet.txt", some "./sheet.txt", 1, 1⟩

def left : Status × Desk :=
  (answer (Desk.host []) PlainReport.library Request.ofArguments arguments).run desk

/-- The values take the place of the formulas that they were calculated from. -/
theorem answer_answers_overwritten :
    (Desk.host []).Lawful Desk.view ∧ PlainReport.library.Lawful ∧
      Request.ofArguments arguments = .run chosen ∧ chosen.places ≤ Decimal.maxPlaces ∧
      left.1.code = 0 ∧ left.2.printed = "" ∧
      left.2.folder.file? "sheet.txt" = some (encode "2 1\n2.0\n3.0\n") ∧
      left.2.folder.file? "notes.txt" = some [] := by
  have hrun : Request.ofArguments arguments = .run chosen := by decide +kernel
  have hplaces : chosen.places ≤ Decimal.maxPlaces := by decide
  obtain ⟨source, content, taken, htaken, hanswers⟩ := answer_answers (Desk.host_lawful [])
    PlainReport.library_lawful hrun hplaces desk
  have hnamed : ¬Path.Dashed "sheet.txt".toList :=
    mt Path.isDash_iff_dashed.2 (by decide +kernel)
  cases htaken with
  | absent hnone => cases hnone
  | dash hinput hdashed =>
      cases hinput
      exact absurd hdashed hnamed
  | named hinput _ hread =>
      cases hinput
      cases hread
      have htext : valuesText (some "sheet.txt") 1 (desk.folder.read "sheet.txt") =
          .ok "2 1\n2.0\n3.0\n" := by decide +kernel
      obtain ⟨hcode, hprinted, hsheet, hothers⟩ :=
        hanswers.filed _ "./sheet.txt" "sheet.txt" _ _ htext rfl rfl rfl
      exact ⟨Desk.host_lawful [], PlainReport.library_lawful, hrun, hplaces, hcode, hprinted,
        hsheet, hothers "notes.txt" (by decide)⟩

end DeliveryWitness

namespace DashWitness

def input : List UInt8 := encode "1 1\n5\n"

def desk : Desk := ⟨⟨[]⟩, ""⟩

def slashed : Settings := ⟨some "-/", none, 5, 0⟩

def left : Status × Desk :=
  (answer (Desk.host input) PlainReport.library Request.ofArguments ["--", "-/"]).run desk

/-- A dash with a slash behind it is another name than a lone dash, and no file has it.  Still
the run does not do what one on that file would do: it reads standard input and succeeds. -/
theorem not_answers_slashed :
    Request.ofArguments ["--", "-/"] = .run slashed ∧ slashed.places ≤ Decimal.maxPlaces ∧
      desk.folder.read "-/" = .error .missing ∧
      ¬Answers (Desk.host input) Desk.view slashed
        (valuesText (some "-/") slashed.places (.error .missing)) desk desk left := by
  refine ⟨by decide +kernel, by decide, by decide +kernel, ?_⟩
  intro hanswers
  have hmissing : valuesText (some "-/") slashed.places (.error .missing) =
      .error ⟨some "Failed to load -/", .io (.file .missing)⟩ := by decide +kernel
  have hsucceeds : left.1.code = 0 := by decide +kernel
  obtain ⟨-, hone, -⟩ := hanswers.failed _ hmissing
  rw [hsucceeds] at hone
  exact absurd (hone.2 (by simp)) (by decide)

end DashWitness

end Command

end PostfixSheet
