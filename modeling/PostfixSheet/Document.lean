/-
Documents: a sheet that was read from somewhere, with its calculation.
-/
import PostfixSheet.Compute
import PostfixSheet.Results
import PostfixSheet.SheetText

namespace PostfixSheet

/-- A sheet under calculation. -/
structure Document where
  sheet : Sheet
  progress : Progress sheet.size
  /-- The file that the sheet came from, if it came from one. -/
  source : Option String
  /-- The document as a whole has been calculated. -/
  calculated : Bool

namespace Document

def ofSheet (sheet : Sheet) (source : Option String) : Document :=
  ⟨sheet, .fresh _, source, false⟩

/-- Reads a document from the file `source`, or from elsewhere if there is no file,
given what came of taking in the bytes. -/
def load (source : Option String) (content : Except FileFault (List UInt8)) :
    Except Problem Document :=
  match content with
  | .error fault => .error (.io (.file fault))
  | .ok bytes => (SheetText.read bytes).map fun sheet => ofSheet sheet source

def compute (document : Document) (cell : Address) (trail : Trail) :
    Except Fault Float × Trail × Document :=
  let ⟨sheet, progress, source, calculated⟩ := document
  let (answer, run) := sheet.compute cell ⟨progress, trail⟩
  (answer, run.trail, ⟨sheet, run.progress, source, calculated⟩)

/-- Evaluates the cells of the sheet, whether or not the document has been
calculated. -/
def computeSheet (document : Document) : Except Fault Unit × Document :=
  let ⟨sheet, progress, source, calculated⟩ := document
  let (answer, progress) := sheet.computeAll progress
  (answer, ⟨sheet, progress, source, calculated⟩)

/-- Calculates the document.  Once that has succeeded there is nothing more to
do. -/
def calculate (document : Document) : Except Fault Unit × Document :=
  if document.calculated then (.ok (), document)
  else
    match document.computeSheet with
    | (.ok (), document) => (.ok (), { document with calculated := true })
    | (.error fault, document) => (.error fault, document)

def write (document : Document) (places : Nat) (sink : Sink) :
    Except Problem Unit × Sink :=
  Results.write document.sheet document.progress places sink

end Document

end PostfixSheet
