import Lox.Compile.Statement
import Lox.Token.Scan

/-!
# Programs

`level n` reads phrases that may contain `n` more levels of nested ones; where nothing more may be
nested it complains and skips a token.  Compiling a source is reading declarations at the outermost
level up to the end of its tokens.  The result is the function of the whole script, or else the
diagnostics; either way the string objects that were made stay in the table.
-/

namespace Lox.Compile

/-- Refuses a phrase that is nested too deeply. -/
def refuseNesting : Compiling Unit := do
  complainHere .tooDeep
  advance

/-- The actions that read phrases nested up to `n` levels deep. -/
def level : Nat → Level
  | 0 => ⟨refuseNesting, fun _ => refuseNesting, refuseNesting⟩
  | n + 1 =>
    let inner := level n
    ⟨statementBody inner, operatorsBody inner, blockBody inner⟩

/-- Reads declarations up to the end of the source. -/
def program (outermost : Level) : Nat → Compiling Unit
  | 0 => fail .endless
  | fuel + 1 => do
    unless ← accept .endOfInput do
      declaration outermost
      program outermost fuel

/-- Compiles the tokens ahead to the function of the script. -/
def script : Compiling Prototype := do
  advance
  program (level maxNesting) (← get).budget
  return (← closeBody).1

/-- The state before the first token. -/
def State.start (tokens : Array Token) (strings : StringTable) (serial : Nat) : State where
  previous := ⟨.endOfInput, "", 0, 0⟩
  current := ⟨.endOfInput, "", 0, 0⟩
  rest := tokens.toList
  budget := tokens.size
  panicking := false
  diagnostics := #[]
  body := .start .script ""
  enclosing := []
  classes := []
  strings := strings
  serial := serial
  finished := #[]
  fault := none

end Lox.Compile

namespace Lox

/-- What comes of compiling a source. -/
structure Compilation where
  /-- The function of the script, or what is wrong. -/
  outcome : Except (Array Diagnostic) Prototype
  /-- The string objects, with those made for the source. -/
  strings : StringTable
  /-- The serial number of the next prototype. -/
  serial : Nat
  /-- The functions that were finished before anything was found wrong, in that order. -/
  finished : Array Prototype
  /-- What would have stopped the compilation. -/
  fault : Option Compile.Fault

open Compile in
/-- Compiles a source with the string objects and the serial number in use so far. -/
def compile (source : String) (strings : StringTable) (serial : Nat) : Compilation :=
  let (prototype, s) := script.run (.start (Token.scan source) strings serial)
  { outcome := if s.diagnostics.isEmpty then .ok prototype else .error s.diagnostics
    strings := s.strings
    serial := s.serial
    finished := s.finished
    fault := s.fault }

end Lox
