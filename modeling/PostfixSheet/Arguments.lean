/-
Reading the arguments of the command line.

Arguments are taken from left to right, and the first that asks for a text about the command,
or that cannot be used, ends the reading.
-/
import PostfixSheet.Results
import PostfixSheet.Settings

namespace PostfixSheet

/-- Settings as far as they have been asked for. -/
structure Draft where
  input : Option String
  output : Option String
  places : Option Nat
  verbosity : Nat
  deriving DecidableEq, Repr

namespace Draft

def empty : Draft := ⟨none, none, none, 0⟩

/-- The settings that are asked for, with what is not asked for as usual. -/
def settings (draft : Draft) : Settings :=
  ⟨draft.input, draft.output, draft.places.getD Results.defaultPlaces, draft.verbosity⟩

def versionText : String := "gridcalc 0.1.0\n"

def helpText : String :=
  "Evaluate a grid of postfix expressions with cell references

Usage: gridcalc [OPTIONS] [INPUT]

Arguments:
  [INPUT]  Sheet description to evaluate (standard input when absent or `-`)

Options:
  -o, --output <FILE>          Write results to FILE instead of standard output
  -p, --precision <PRECISION>  Fractional digits per value [default: 5]
  -v, --verbose...             Log more to standard error (repeatable)
  -h, --help                   Print help
  -V, --version                Print version
"

inductive Named where
  | output
  | places
  deriving DecidableEq, Repr

/-- Sets a setting that takes a value.  It can be set once, a file has to have a name, and
the number of places has to be a count. -/
def set (draft : Draft) (named : Named) (value : String) : Option Draft :=
  match named with
  | .output =>
    if draft.output.isSome ∨ value.isEmpty then none
    else some { draft with output := some value }
  | .places =>
    if draft.places.isSome then none
    else (Text.count? value).map fun places => { draft with places := some places }

/-- Takes an argument that is no flag as the file to read.  There can be one. -/
def setInput (draft : Draft) (value : String) : Option Draft :=
  if draft.input.isSome ∨ value.isEmpty then none
  else some { draft with input := some value }

/-- What comes of an argument: a new draft, one that awaits the value of a setting in the
next argument, or the end of the reading. -/
inductive Step where
  | go (draft : Draft)
  | await (named : Named) (draft : Draft)
  | answer (request : Request)
  deriving DecidableEq, Repr

/-- Takes the letters of an argument with one dash.  After a letter whose setting takes a
value the rest of the argument is that value, with an equals sign in front or without. -/
def takeLetters (draft : Draft) : List Char → Option Step
  | [] => some (.go draft)
  | 'v' :: rest => takeLetters { draft with verbosity := draft.verbosity + 1 } rest
  | 'h' :: _ => some (.answer (.about helpText))
  | 'V' :: _ => some (.answer (.about versionText))
  | 'o' :: rest => takeValue .output rest
  | 'p' :: rest => takeValue .places rest
  | _ => none
where
  takeValue (named : Named) : List Char → Option Step
    | [] => some (.await named draft)
    | '=' :: value => (draft.set named (String.ofList value)).map .go
    | value => (draft.set named (String.ofList value)).map .go

/-- Takes an argument with two dashes, given its name and what stands after an equals
sign. -/
def takeWord (draft : Draft) (name : String) (value : Option String) : Option Step :=
  match name, value with
  | "verbose", none => some (.go { draft with verbosity := draft.verbosity + 1 })
  | "help", none => some (.answer (.about helpText))
  | "version", none => some (.answer (.about versionText))
  | "output", none => some (.await .output draft)
  | "precision", none => some (.await .places draft)
  | "output", some value => (draft.set .output value).map .go
  | "precision", some value => (draft.set .places value).map .go
  | _, _ => none

/-- A flag starts with a dash and goes on. -/
def isFlag (argument : String) : Bool :=
  match argument.toList with
  | '-' :: _ :: _ => true
  | _ => false

def splitEquals (cs : List Char) : String × Option String :=
  (String.ofList (cs.takeWhile (· ≠ '=')),
    match cs.dropWhile (· ≠ '=') with
    | [] => none
    | _ :: value => some (String.ofList value))

def take (draft : Draft) (argument : String) : Option Step :=
  match argument.toList with
  | '-' :: '-' :: word =>
    let (name, value) := splitEquals word
    draft.takeWord name value
  | '-' :: letter :: letters => draft.takeLetters (letter :: letters)
  | _ => (draft.setInput argument).map .go

/-- Takes the arguments one after the other; `awaited` is the setting whose value comes
next.  No argument after two dashes is a flag. -/
def takeAll (awaited : Option Named) (draft : Draft) : List String → Option Request
  | [] => if awaited.isSome then none else some (.run draft.settings)
  | argument :: rest =>
    match awaited with
    | some named =>
      if isFlag argument then none
      else (draft.set named argument).bind fun draft => takeAll none draft rest
    | none =>
      if argument = "--" then (rest.foldlM setInput draft).map fun draft => .run draft.settings
      else
        match draft.take argument with
        | none => none
        | some (.go draft) => takeAll none draft rest
        | some (.await named draft) => takeAll (some named) draft rest
        | some (.answer request) => some request

end Draft

def Request.ofArguments (arguments : List String) : Request :=
  (Draft.empty.takeAll none arguments).getD .unusable

end PostfixSheet
