/-
The system that a run works in, with its standard input and output and its files.

What the system does is given from outside.  On a real system the actions are carried out;
in a description of one they change a world, of which the files and what has been printed can
be seen.
-/
import PostfixSheet.Problem

namespace PostfixSheet

/-- What a run asks of the system, where `m` stands for actions and a `File` for a file that
is open to be written. -/
structure Host (m : Type → Type) (File : Type) where
  /-- Takes in all of standard input. -/
  input : m (Except FileFault (List UInt8))
  /-- Puts text on standard output. -/
  print (text : String) : m (Except FileFault Unit)
  /-- Takes in all of the file at a path. -/
  read (path : String) : m (Except FileFault (List UInt8))
  /-- Opens the file at a path, new or without its content. -/
  create (path : String) : m (Except FileFault File)
  /-- Puts bytes at the end of an open file. -/
  write (file : File) (bytes : List UInt8) : m (Except FileFault Unit)

/-- What can be seen of a world. -/
structure View (World File : Type) where
  /-- The bytes of a file, if it is there. -/
  content : World → File → Option (List UInt8)
  printed : World → String

def View.Same {World File : Type} (view : View World File) (world later : World) : Prop :=
  view.content later = view.content world ∧ view.printed later = view.printed world

/-- What a system promises.  Its standard output takes all text, but it may refuse to open a
file, and it may fail to write one that is open. -/
structure Host.Lawful {World File : Type} (host : Host (StateM World) File)
    (view : View World File) : Prop where
  input_same : ∀ {world answer later}, host.input.run world = (answer, later) →
    view.Same world later
  read_same : ∀ {path world answer later}, (host.read path).run world = (answer, later) →
    view.Same world later
  printed : ∀ text world, ∃ later, (host.print text).run world = (.ok (), later) ∧
    view.content later = view.content world ∧ view.printed later = view.printed world ++ text
  not_created : ∀ {path world fault later},
    (host.create path).run world = (.error fault, later) → view.Same world later
  created : ∀ {path world file later}, (host.create path).run world = (.ok file, later) →
    view.printed later = view.printed world ∧ view.content later file = some [] ∧
      ∀ other, other ≠ file → view.content later other = view.content world other
  written : ∀ {file bytes world later old}, (host.write file bytes).run world = (.ok (), later) →
    view.content world file = some old → view.content later file = some (old ++ bytes)
  write_other : ∀ {file bytes world answer later},
    (host.write file bytes).run world = (answer, later) →
    view.printed later = view.printed world ∧
      ∀ other, other ≠ file → view.content later other = view.content world other

end PostfixSheet
