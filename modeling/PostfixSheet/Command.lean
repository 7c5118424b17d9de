/-
The command: a run reads a sheet, calculates it and writes its values.

What a run asks of the system goes through a host, and what went wrong is told by a library
of reports.  No file is opened to be written before the whole sheet has been calculated.
-/
import PostfixSheet.Document
import PostfixSheet.Host
import PostfixSheet.Path
import PostfixSheet.Reports
import PostfixSheet.Settings

namespace PostfixSheet

namespace Command

open Text

inductive Status where
  | success
  /-- The calculation failed, or something could not be read or written. -/
  | failure
  /-- The arguments or the text of the sheet cannot be used. -/
  | unusable
  /-- A value could not be put into words, or a report could not be printed. -/
  | aborted
  deriving DecidableEq, Repr

namespace Status

def code : Status → Nat
  | .success => 0
  | .failure => 1
  | .unusable => 2
  | .aborted => 101

/-- The status that a report leads to, by the problem that it was made from. -/
def ofReport {Report : Type} (reports : Reports Report) (report : Report) : Status :=
  match reports.problem? report with
  | some (.text _) => .unusable
  | _ => .failure

end Status

/-- What ends a run early. -/
inductive Stop (Report : Type) where
  | report (report : Report)
  | abort

variable {m : Type → Type} [Monad m] {File Report : Type}

/-- Goes on with a result, or ends the run with a report of why there is none. -/
def orReport {Fault Result : Type} (report : Fault → Report) :
    Except Fault Result → ExceptT (Stop Report) m Result
  | .ok result => return result
  | .error fault => throw (.report (report fault))

variable (host : Host m File) (reports : Reports Report)

/-- Reads the document.  A path that stands for standard input names no file. -/
def load (settings : Settings) : ExceptT (Stop Report) m Document := do
  match settings.input.filter fun path => !Path.isDash path with
  | some path =>
    let content ← host.read path
    let report problem := reports.within s!"Failed to load {path}" (reports.ofProblem problem)
    orReport report (Document.load (some path) content)
  | none =>
    let content ← host.input
    orReport reports.ofProblem (Document.load none content)

/-- Hands the values of a document over, as far as they can be put into words. -/
def handOver (give : String → m (Except FileFault Unit)) (settings : Settings)
    (document : Document) : ExceptT (Stop Report) m Unit := do
  let (answer, sink) := document.write settings.places .unbounded
  let given ← give sink.received
  match answer with
  | .error (.places _) => throw .abort
  | answer =>
    orReport (fun fault => reports.ofProblem (.io (.file fault))) given
    orReport reports.ofProblem answer

def deliver (settings : Settings) (document : Document) : ExceptT (Stop Report) m Unit := do
  match settings.output with
  | none => handOver reports host.print settings document
  | some path =>
    let created ← host.create path
    let report fault := reports.within s!"Failed to create {path}" (reports.ofFile fault)
    let file ← orReport report created
    handOver reports (fun text => host.write file (encode text)) settings document

def run (settings : Settings) : ExceptT (Stop Report) m Unit := do
  let document ← load host reports settings
  let (answer, document) := document.calculate
  orReport (fun fault => reports.ofProblem (.formula fault)) answer
  deliver host reports settings document

/-- Carries out a run and prints what went wrong. -/
def conclude (settings : Settings) : m Status := do
  match ← (run host reports settings).run with
  | .ok () => return .success
  | .error .abort => return .aborted
  | .error (.report report) =>
    match ← host.print (reports.story report ++ "\n") with
    | .ok () => return .ofReport reports report
    | .error _ => return .aborted

/-- Answers arguments, as they are read by a library. -/
def answer (reader : List String → Request) (arguments : List String) : m Status := do
  match reader arguments with
  | .run settings => conclude host reports settings
  | .about text =>
    let _ ← host.print text
    return .success
  | .unusable => return .unusable

end Command

end PostfixSheet
