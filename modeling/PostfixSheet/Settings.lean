/-
The settings of a run.

The arguments of the command line are read by a library; this is what it hands over.
-/
namespace PostfixSheet

structure Settings where
  /-- The file to read; standard input if there is none. -/
  input : Option String
  /-- The file to write; standard output if there is none. -/
  output : Option String
  /-- The number of decimal places of every value. -/
  places : Nat
  /-- How much is to be told about the run. -/
  verbosity : Nat
  deriving DecidableEq, Repr

/-- What the arguments ask for. -/
inductive Request where
  | run (settings : Settings)
  /-- A text about the command itself. -/
  | about (text : String)
  /-- The arguments cannot be used. -/
  | unusable
  deriving DecidableEq, Repr

end PostfixSheet
