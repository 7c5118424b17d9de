/-
Reports of what went wrong.

A library makes the reports and tells them.  A report is made from a problem, or from the
system's complaint about a file, and what was being done can be put in front of it.
-/
import PostfixSheet.Problem

namespace PostfixSheet

structure Reports (Report : Type) where
  ofProblem : Problem → Report
  ofFile : FileFault → Report
  /-- Puts what was being done in front of a report. -/
  within : String → Report → Report
  /-- The problem that a report was made from. -/
  problem? : Report → Option Problem
  /-- The report in one line, with all that has been put in front of it. -/
  story : Report → String

/-- What the library promises. -/
structure Reports.Lawful {Report : Type} (reports : Reports Report) : Prop where
  problem?_ofProblem : ∀ problem, reports.problem? (reports.ofProblem problem) = some problem
  problem?_ofFile : ∀ fault, reports.problem? (reports.ofFile fault) = none
  problem?_within : ∀ doing report,
    reports.problem? (reports.within doing report) = reports.problem? report
  story_ofProblem : ∀ problem, reports.story (reports.ofProblem problem) = problem.story
  story_ofFile : ∀ fault, reports.story (reports.ofFile fault) = fault.message
  story_within : ∀ doing report,
    reports.story (reports.within doing report) = doing ++ ": " ++ reports.story report

/-- A report as its parts. -/
inductive PlainReport where
  | ofProblem (problem : Problem)
  | ofFile (fault : FileFault)
  | within (doing : String) (report : PlainReport)
  deriving DecidableEq, Repr

namespace PlainReport

def problem? : PlainReport → Option Problem
  | .ofProblem problem => some problem
  | .ofFile _ => none
  | .within _ report => report.problem?

def story : PlainReport → String
  | .ofProblem problem => problem.story
  | .ofFile fault => fault.message
  | .within doing report => doing ++ ": " ++ report.story

def library : Reports PlainReport := ⟨.ofProblem, .ofFile, .within, problem?, story⟩

theorem library_lawful : library.Lawful where
  problem?_ofProblem _ := rfl
  problem?_ofFile _ := rfl
  problem?_within _ _ := rfl
  story_ofProblem _ := rfl
  story_ofFile _ := rfl
  story_within _ _ := rfl

end PlainReport

end PostfixSheet
