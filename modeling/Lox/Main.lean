import Lox.CommandLine
import Std.Time.DateTime.Timestamp

/-!
# The program

The command line at work: it reads files, lines and the clock, and writes the pieces as they come.
A run is made in slices, so that the clock goes on and output appears while a script runs.
-/

namespace Lox.CommandLine

/-- The time in seconds since the start of 1970. -/
def readClock : IO Float := do
  let now ← Std.Time.Timestamp.now
  return Float.ofInt now.toNanosecondsSinceUnixEpoch.toInt / 1e9

/-- Writes a piece. -/
def write : Piece → IO Unit
  | .out text => do
    let out ← IO.getStdout
    out.putStr text
    out.flush
  | .err text => IO.eprint text

/-- The number of steps between two readings of the clock. -/
def slice : Nat := 10000

instance : Nonempty (Outcome × Session) := ⟨(.ok, .start .quiet)⟩

/-- Goes on with a run for a slice; if it stops, it is ended. -/
def runSlice (s : Session) : IO (Session ⊕ Outcome × Session) := do
  let (stop, s) := (s.atTime (← readClock)).advance slice
  let s ← writeTold write s
  match stop with
  | none => return .inl s
  | some stop =>
    let (outcome, s) := s.finish stop
    return .inr (outcome, ← writeTold write s)

/-- Runs a source. -/
def interpret (s : Session) (source : String) : IO (Outcome × Session) := do
  let (loaded, s) := s.load source
  let s ← writeTold write s
  if loaded then repeatM runSlice s else return (.compileError, s)

/-- Reads the bytes of a file. -/
def readFile (path : String) : IO (Except FileError ByteArray) := do
  try
    return .ok (← IO.FS.readBinFile path)
  catch error =>
    return .error <| match error with
      | .noFileOrDirectory .. => .missing
      | .inappropriateType .. => .directory
      | other => .other (toString other)

/-- Reads a byte of standard input. -/
def readByte : IO (Option UInt8) := do
  let bytes ← (← IO.getStdin).read 1
  return bytes[0]?

/-- The system at hand. -/
def terminal : System IO := { readFile, readByte, write, interpret }

end Lox.CommandLine

open Lox.CommandLine in
/-- Runs what the arguments ask for. -/
def main (arguments : List String) : IO UInt32 := do
  return (← terminal.run arguments).toUInt32
