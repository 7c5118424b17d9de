/-
The command line program: the command on the system that it runs on.
-/
import PostfixSheet.Arguments
import PostfixSheet.Command

namespace PostfixSheet

namespace Command

/-- Why a file could not be used, from the system's report. -/
def fileFault : IO.Error → FileFault
  | .noFileOrDirectory .. => .missing
  | .inappropriateType _ 21 _ => .isDirectory
  | .inappropriateType .. => .notDirectory
  | error => .other error.toString

def attempt {Result : Type} (action : IO Result) : IO (Except FileFault Result) := do
  try return .ok (← action)
  catch error => return .error (fileFault error)

def system : Host IO IO.FS.Handle where
  input := attempt do return (← (← IO.getStdin).readBinToEnd).data.toList
  print text := attempt do
    IO.print text
    (← IO.getStdout).flush
  read path := attempt do return (← IO.FS.readBinFile path).data.toList
  create path := attempt (IO.FS.Handle.mk path .write)
  write file bytes := attempt do
    file.write ⟨bytes.toArray⟩
    file.flush

/-- What is told on the side of a run. -/
def log (request : Request) (status : Status) : IO Unit := do
  match request with
  | .run settings =>
    if 0 < settings.verbosity then IO.eprintln s!"the run ends with status {status.code}"
  | .about _ => return
  | .unusable => IO.eprint Draft.helpText

end Command

end PostfixSheet

open PostfixSheet in
def main (arguments : List String) : IO UInt32 := do
  let status ← Command.answer Command.system PlainReport.library Request.ofArguments arguments
  Command.log (Request.ofArguments arguments) status
  return UInt32.ofNat status.code
