/-!
# Journals

What a session has to tell, in the order in which it happens: lines that the program prints, lines
of reports on errors, and records for those who watch the machine work.
-/

namespace Lox

/-- How closely somebody watches. -/
inductive Verbosity where
  | quiet | debug | trace
  deriving DecidableEq, Repr

/-- The kinds of record. -/
inductive RecordLevel where
  | debug | trace
  deriving DecidableEq, Repr

/-- The name of a kind of record. -/
def RecordLevel.name : RecordLevel → String
  | .debug => "DEBUG"
  | .trace => "TRACE"

/-- Is a record of this level wanted? -/
def Verbosity.wants : Verbosity → RecordLevel → Bool
  | .quiet, _ => false
  | .debug, .debug => true
  | .debug, .trace => false
  | .trace, _ => true

/-- Something a session has to tell. -/
inductive Event where
  /-- A line that the program prints. -/
  | printed (line : String)
  /-- A line of a report. -/
  | reported (line : String)
  /-- A record. -/
  | recorded (level : RecordLevel) (text : String)
  deriving DecidableEq, Repr

/-- A line of the program's output. -/
def Event.output? : Event → Option String
  | .printed line => some line
  | _ => none

/-- A line of a report. -/
def Event.report? : Event → Option String
  | .reported line => some line
  | _ => none

end Lox
