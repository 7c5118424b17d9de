/-
A folder of files, as a small system for the command to run in.

The folder holds files and no folders.  Outside it only the folders above it can
be reached; no file is found there, and none can be made.
-/
import PostfixSheet.Arguments
import PostfixSheet.Command

namespace PostfixSheet

structure Folder where
  files : List (String × List UInt8)
  deriving DecidableEq, Repr

namespace Folder

def file? (folder : Folder) (name : String) : Option (List UInt8) :=
  folder.files.lookup name

/-- The folder with this content in the file of this name.  A new file comes
last. -/
def put (folder : Folder) (name : String) (content : List UInt8) : Folder :=
  if (folder.file? name).isSome then
    ⟨folder.files.map fun entry => if entry.1 = name then (name, content) else entry⟩
  else ⟨folder.files ++ [(name, content)]⟩

/-- What a path leads to. -/
inductive Place where
  /-- The folder itself or one outside it. -/
  | folder
  /-- The file of this name. -/
  | file (name : String)
  /-- The file of this name, with a slash after it as after a folder. -/
  | slashed (name : String)
  /-- Something inside what has this name, which would have to be a folder. -/
  | inside (name : String)
  /-- Something outside the folder, perhaps with a slash after it. -/
  | outside (slash : Bool)
  deriving DecidableEq, Repr

namespace Place

/-- What the parts of a path lead to; `here` as long as they have not left the
folder. -/
def ofParts (here : Bool) : List String → Place
  | [] => .folder
  | part :: rest =>
    if Path.isIdle part then ofParts here rest
    else if part = ".." then ofParts false rest
    else if here then
      if rest = [] then .file part
      else if rest.all (· = "") then .slashed part
      else .inside part
    else .outside (rest ≠ [] ∧ rest.all (· = ""))

def ofPath (path : String) : Place :=
  ofParts (!Path.isAbsolute path) (Path.parts path)

end Place

/-- Why nothing can be reached inside what has this name. -/
def notFolder (folder : Folder) (name : String) : FileFault :=
  if (folder.file? name).isSome then .notDirectory else .missing

def read (folder : Folder) (path : String) : Except FileFault (List UInt8) :=
  match Place.ofPath path with
  | .folder => .error .isDirectory
  | .file name => (folder.file? name).elim (.error .missing) .ok
  | .slashed name => .error (folder.notFolder name)
  | .inside name => .error (folder.notFolder name)
  | .outside _ => .error .missing

/-- Empties the file that a path leads to, which may be new.  What has a slash after it
cannot be made as a file, whether it is there or not. -/
def create (folder : Folder) (path : String) : Except FileFault (String × Folder) :=
  match Place.ofPath path with
  | .folder => .error .isDirectory
  | .file name => .ok (name, folder.put name [])
  | .slashed _ => .error .isDirectory
  | .inside name => .error (folder.notFolder name)
  | .outside slash => .error (if slash then .isDirectory else .missing)

def extend (folder : Folder) (name : String) (bytes : List UInt8) : Folder :=
  folder.put name ((folder.file? name).getD [] ++ bytes)

end Folder

/-- A folder on which the command is run, with what has been printed there. -/
structure Desk where
  folder : Folder
  printed : String
  deriving DecidableEq, Repr

namespace Desk

def view : View Desk String := ⟨fun desk => desk.folder.file?, Desk.printed⟩

/-- A system whose files are those of the folder and whose standard input is given.  All of
a text fits, in a file as on standard output. -/
def host (input : List UInt8) : Host (StateM Desk) String where
  input := return .ok input
  print text desk := (.ok (), { desk with printed := desk.printed ++ text })
  read path desk := (desk.folder.read path, desk)
  create path desk :=
    match desk.folder.create path with
    | .error fault => (.error fault, desk)
    | .ok (name, folder) => (.ok name, { desk with folder })
  write name bytes desk := (.ok (), { desk with folder := desk.folder.extend name bytes })

end Desk

namespace Command

/-- What is left of a run besides its files. -/
structure Outcome where
  status : Status
  printed : String
  deriving DecidableEq, Repr

def answerIn (folder : Folder) (input : List UInt8) (arguments : List String) :
    Outcome × Folder :=
  let (status, desk) :=
    (answer (Desk.host input) PlainReport.library Request.ofArguments arguments).run ⟨folder, ""⟩
  (⟨status, desk.printed⟩, desk.folder)

end Command

end PostfixSheet
