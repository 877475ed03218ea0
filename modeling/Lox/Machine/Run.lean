import Lox.Listing
import Lox.Machine.Step

/-!
# Runs

Steps up to the one that stops the run, with a record of each for those who want to see it, and
what is told of a run that has failed: the error, and for each active call the line it has reached.
A run may be made in parts, since fuel that has run out can be added later (`run_add`).
-/

namespace Lox.Machine

/-- The stack and the next instruction, as a record. -/
def traceText? (m : Machine) : Option String :=
  match m.frames with
  | [] => none
  | f :: _ =>
    let stack := String.join (m.stack.toList.map fun v => "[ " ++ v.display ++ " ]")
    some ("          " ++ stack ++ "\n" ++ (f.closure.prototype.chunk.listInstr f.ip).1)

/-- Adds the record of the next step to the journal. -/
def noteStep (m : Machine) : Machine :=
  match m.traceText? with
  | some text => m.note (.recorded .trace text)
  | none => m

/-- Makes steps until one stops the run, at most `fuel` of them; the result tells why it stopped,
if it did. -/
def run (traced : Bool) : Nat → Machine → Option Stop × Machine
  | 0, m => (none, m)
  | fuel + 1, m =>
    match step (if traced then m.noteStep else m) with
    | .ok _ m => run traced fuel m
    | .error stop m => (some stop, m)

/-- A run that has been stopped by its fuel goes on where it was. -/
theorem run_add (traced : Bool) (n k : Nat) (m : Machine) :
    run traced (n + k) m =
      match run traced n m with
      | (none, m) => run traced k m
      | stopped => stopped := by
  induction n generalizing m with
  | zero => simp [run]
  | succ n ih =>
    rw [Nat.succ_add]
    simp only [run]
    split
    · exact ih _
    · rfl

/-- How an active call is told in a report. -/
def frameLine (f : Frame) : String :=
  let name := f.closure.prototype.name
  "[line " ++ toString f.line ++ "] in " ++ if name.isEmpty then "script" else name ++ "()"

/-- The report of an error: its words, and the active calls, the innermost first. -/
def report (m : Machine) (error : RuntimeError) : List String :=
  error.message :: m.frames.map frameLine

/-- Gives up the run: closures that escaped keep their variables, and nothing else is left. -/
def reset (m : Machine) : Machine :=
  let closing := (m.partCells 0 m.openCells).elim [] (·.1)
  { m with cells := closeAll closing m.cells, openCells := [], stack := #[], frames := [] }

end Lox.Machine
