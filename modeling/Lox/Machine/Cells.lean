import Lox.Machine.Stack

/-!
# Captured variables

A captured variable lives on the stack as long as its scope does; its cell is open and refers to
the place.  When the scope ends the cell is closed and takes the value over, so closures go on
seeing the variable.  There is at most one open cell for a place, and `openCells` has them in the
order of their places, the highest first; so the cells to close are the first ones.
-/

namespace Lox.Machine

/-- Finds the cell open for a place, or else puts the number `new` in order among the open ones.
`slotOf` tells the place of an open cell. -/
def findOrInsert (slotOf : Nat → Option Nat) (slot new : Nat) : List Nat → Nat × List Nat
  | [] => (new, [new])
  | i :: lower =>
    if slotOf i = some slot then (i, i :: lower)
    else if (slotOf i).any (· < slot) then (new, new :: i :: lower)
    else
      let (found, lower) := findOrInsert slotOf slot new lower
      (found, i :: lower)

/-- The place of an open cell. -/
def slotOf (m : Machine) (cell : Nat) : Option Nat := m.cells[cell]?.bind Cell.slot?

/-- The number of the cell for a place, which is opened if there is none. -/
def captureSlot (slot : Nat) : Action Nat := fun m =>
  let new := m.cells.size
  let (found, openCells) := findOrInsert m.slotOf slot new m.openCells
  if found = new then .ok new { m with openCells, cells := m.cells.push (.opened slot) }
  else .ok found m

/-- Parts the open cells, the highest place first, into those of places from `last` on, each with
the value it is to take over, and those that stay open.  There is no result if an open cell refers
to no place of the stack. -/
def partCells (m : Machine) (last : Nat) : List Nat → Option (List (Nat × Value) × List Nat)
  | [] => some ([], [])
  | i :: lower =>
    match m.slotOf i with
    | none => some ([], i :: lower)
    | some slot =>
      if last ≤ slot then do
        let v ← m.stack[slot]?
        let (closing, staying) ← partCells m last lower
        return ((i, v) :: closing, staying)
      else some ([], i :: lower)

/-- Closes cells, each with its value. -/
def closeAll (closing : List (Nat × Value)) (cells : Array Cell) : Array Cell :=
  closing.foldl (fun cells (i, v) => cells.setIfInBounds i (.closed v)) cells

/-- Closes the cells of all places from `last` on. -/
def closeCells (last : Nat) : Action Unit := fun m =>
  match m.partCells last m.openCells with
  | some (closing, openCells) => .ok () { m with openCells, cells := closeAll closing m.cells }
  | none => .error (.broken .badSlot) m

/-- The number of a cell that the running closure has captured. -/
def capturedCell (index : UInt8) : Action Nat := do
  let f ← frame
  orBroken .badCapture f.closure.captured[index.toNat]?

/-- The value of a captured variable. -/
def readCell (cell : Nat) : Action Value := do
  match ← orBroken .badCell (← get).cells[cell]? with
  | .opened slot => readSlot slot
  | .closed v => return v

/-- Gives a captured variable a value. -/
def writeCell (cell : Nat) (v : Value) : Action Unit := do
  match ← orBroken .badCell (← get).cells[cell]? with
  | .opened slot => writeSlot slot v
  | .closed _ => modify fun m => { m with cells := m.cells.setIfInBounds cell (.closed v) }

/-- The cells that a new closure captures, in order, after those found before. -/
def captureAll : List Capture → Array Nat → Action (Array Nat)
  | [], found => return found
  | capture :: captures, found => do
    let cell ←
      if capture.isLocal then captureSlot ((← frame).base + capture.index.toNat)
      else capturedCell capture.index
    captureAll captures (found.push cell)

end Lox.Machine
