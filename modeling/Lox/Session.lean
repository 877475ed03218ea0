import Lox.Compile.Program
import Lox.Machine.Run

/-!
# Sessions

A session runs one source after the other on one machine, so the globals of a run are there for
the next.  `Session.load` compiles a source and puts its script on the machine, `Session.finish`
ends a run that has stopped, and `Session.interpret` is the whole way in between with a bound on
the number of steps.  What a run tells is in the journal of the machine.
-/

namespace Lox

/-- A machine that is watched. -/
structure Session where
  machine : Machine
  verbosity : Verbosity

/-- What comes of running a source. -/
inductive Outcome where
  | ok
  | compileError
  | runtimeError
  /-- The machine has met something that compiled code never contains. -/
  | defect (defect : Defect)
  deriving DecidableEq, Repr

namespace Session

/-- Adds a record to the journal, if it is wanted. -/
def note (s : Session) (level : RecordLevel) (text : String) : Session :=
  if s.verbosity.wants level then { s with machine := s.machine.note (.recorded level text) } else s

/-- Adds the lines of a report to the journal. -/
def tell (s : Session) (lines : List String) : Session :=
  { s with machine := lines.foldl (fun m line => m.note (.reported line)) s.machine }

/-- Takes the journal out. -/
def takeJournal (s : Session) : Array Event × Session :=
  (s.machine.journal, { s with machine := { s.machine with journal := #[] } })

/-- Sets the clock. -/
def atTime (s : Session) (now : Float) : Session := { s with machine := { s.machine with now } }

/-- Makes a function of the host a global. -/
def defineNative (s : Session) (name : String) (arity : UInt8) (body : NativeBody) : Session :=
  let (object, strings) := s.machine.strings.intern name
  let (f, machine) := { s.machine with strings }.newNative object.content arity body
  let machine := { machine with globals := machine.globals.insert object.content f }
  { s with machine }.note .trace
    ("registered native function " ++ object.content ++ "/" ++ toString arity.toNat)

/-- The time, as a function of the host. -/
def clock : NativeBody := fun host _ => .ok (.value (.number host.now))

/-- A new session. -/
def start (verbosity : Verbosity) : Session :=
  let (_, strings) := StringTable.empty.intern "init"
  let session : Session := { machine := { Machine.empty with strings }, verbosity }
  session.defineNative "clock" 0 clock

/-- Compiles a source.  If nothing is wrong with it the script is called on the machine, and
otherwise the diagnostics are told; the result says which. -/
def load (s : Session) (source : String) : Bool × Session :=
  let done := compile source s.machine.strings s.machine.nextPrototype
  let s := { s with machine := { s.machine with strings := done.strings } }
  let s := done.finished.foldl (fun s p => s.note .debug ("\n" ++ p.listing)) s
  match done.outcome with
  | .error diagnostics =>
    let s := s.tell (diagnostics.toList.map Diagnostic.text)
    (false, s.note .debug ("compilation failed with " ++ toString diagnostics.size ++ " error(s)"))
  | .ok script =>
    let machine := { s.machine with nextPrototype := done.serial }
    let (closure, machine) := machine.newClosure script #[]
    match (do Machine.push (.closure closure); Machine.call closure 0 : Action Unit) machine with
    | .ok _ machine | .error _ machine => (true, { s with machine })

/-- Makes at most `fuel` steps of a run; the result tells why it stopped, if it did. -/
def advance (s : Session) (fuel : Nat) : Option Stop × Session :=
  let (stop, machine) := s.machine.run (s.verbosity.wants .trace) fuel
  (stop, { s with machine })

/-- Ends a run that has stopped. -/
def finish (s : Session) : Stop → Outcome × Session
  | .finished =>
    let globals := toString s.machine.globals.size
    (.ok, s.note .debug ("script finished, " ++ globals ++ " global(s) defined"))
  | .failed error =>
    let s := s.note .debug ("script aborted: " ++ error.message)
    let s := s.tell (s.machine.report error)
    let closes := (s.machine.partCells 0 s.machine.openCells).isSome
    (if closes then .runtimeError else .defect .badSlot, { s with machine := s.machine.reset })
  | .broken defect => (.defect defect, { s with machine := s.machine.reset })

/-- Runs a source, which may take `fuel` steps; the result tells what came of it, unless it takes
more. -/
def interpret (s : Session) (fuel : Nat) (source : String) : Option Outcome × Session :=
  match s.load source with
  | (false, s) => (some .compileError, s)
  | (true, s) =>
    match s.advance fuel with
    | (none, s) => (none, s)
    | (some stop, s) =>
      let (outcome, s) := s.finish stop
      (some outcome, s)

end Session

end Lox
