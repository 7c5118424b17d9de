/-
Sinks: where text is written to, piece by piece.  A sink may have room for so many
bytes only.
-/
import PostfixSheet.Problem

namespace PostfixSheet

/-- A receiver of text.  All text handed to it is ASCII, where a character is a
byte. -/
structure Sink where
  /-- The number of bytes that still fit; `none` stands for any number. -/
  room : Option Nat
  received : String
  deriving DecidableEq, Repr

namespace Sink

def unbounded : Sink := ⟨none, ""⟩

def bounded (bytes : Nat) : Sink := ⟨some bytes, ""⟩

/-- Hands over one piece of text.  A sink without room for all of it takes what
fits. -/
def put (sink : Sink) (piece : String) : Except Problem Unit × Sink :=
  match sink with
  | ⟨none, received⟩ => (.ok (), ⟨none, received ++ piece⟩)
  | ⟨some room, received⟩ =>
    if piece.length ≤ room then
      (.ok (), ⟨some (room - piece.length), received ++ piece⟩)
    else
      (.error (.io .full),
        ⟨some 0, received ++ String.ofList (piece.toList.take room)⟩)

/-- Hands over pieces one after the other, up to one that could not be made or
that does not fit. -/
def putAll : List (Except Problem String) → Sink → Except Problem Unit × Sink
  | [], sink => (.ok (), sink)
  | .error problem :: _, sink => (.error problem, sink)
  | .ok piece :: rest, sink =>
    match sink.put piece with
    | (.ok (), sink) => putAll rest sink
    | (.error problem, sink) => (.error problem, sink)

end Sink

end PostfixSheet
