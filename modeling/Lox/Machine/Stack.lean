import Lox.Machine.State

/-!
# Stack, frames and constants

The actions that the instructions are composed of.  Each of them checks what it needs and stops the
run with a defect if it is missing.
-/

namespace Lox.Machine

/-- Stops the run with an error of the program. -/
def fail {α : Type} (error : RuntimeError) : Action α := fun m => .error (.failed error) m

/-- Stops the run with a defect. -/
def broken {α : Type} (defect : Defect) : Action α := fun m => .error (.broken defect) m

/-- Uses a value that should be there. -/
def orBroken {α : Type} (defect : Defect) : Option α → Action α
  | some a => pure a
  | none => broken defect

/-! ## The stack -/

/-- Pushes a value. -/
def push (v : Value) : Action Unit := fun m => .ok () { m with stack := m.stack.push v }

/-- Pops a value. -/
def pop : Action Value := fun m =>
  match m.stack.back? with
  | some v => .ok v { m with stack := m.stack.pop }
  | none => .error (.broken .emptyStack) m

/-- The value that has `distance` values above it. -/
def peek (distance : Nat) : Action Value := fun m =>
  if h : distance < m.stack.size then .ok m.stack[m.stack.size - 1 - distance] m
  else .error (.broken .emptyStack) m

/-- Replaces the value that has `distance` values above it. -/
def replace (distance : Nat) (v : Value) : Action Unit := fun m =>
  if distance < m.stack.size then
    .ok () { m with stack := m.stack.setIfInBounds (m.stack.size - 1 - distance) v }
  else .error (.broken .emptyStack) m

/-- The value at a place. -/
def readSlot (slot : Nat) : Action Value := fun m =>
  match m.stack[slot]? with
  | some v => .ok v m
  | none => .error (.broken .badSlot) m

/-- Replaces the value at a place. -/
def writeSlot (slot : Nat) (v : Value) : Action Unit := fun m =>
  if slot < m.stack.size then .ok () { m with stack := m.stack.setIfInBounds slot v }
  else .error (.broken .badSlot) m

/-- Drops all values from a place on. -/
def cutStack (size : Nat) : Action Unit := fun m => .ok () { m with stack := m.stack.shrink size }

/-- Makes a value. -/
def make (b : Blueprint) : Action Value := fun m => let (v, m) := m.build b; .ok v m

/-! ## The running call -/

/-- The running call. -/
def frame : Action Frame := fun m =>
  match m.frames with
  | f :: _ => .ok f m
  | [] => .error (.broken .noFrame) m

/-- Goes on at another offset. -/
def goto (ip : Nat) : Action Unit := fun m =>
  match m.frames with
  | f :: callers => .ok () { m with frames := { f with ip } :: callers }
  | [] => .error (.broken .noFrame) m

/-- Reads the next instruction of the running call. -/
def fetch : Action Instr := fun m =>
  match m.frames with
  | [] => .error (.broken .noFrame) m
  | f :: callers =>
    let chunk := f.closure.prototype.chunk
    match chunk.instrAt? f.ip with
    | none => .error (.broken .badOpcode) m
    | some i =>
      let next := f.ip + i.size
      if next ≤ chunk.size then .ok i { m with frames := { f with ip := next } :: callers }
      else .error (.broken .codeEnds) m

/-- Stops the run with an error of the program before the operand of the instruction has been read: the
running call stands right behind the opcode. -/
def failUnread {α : Type} (error : RuntimeError) : Action α := do
  goto ((← frame).ip - 1)
  fail error

/-- A constant of the running call. -/
def constant (index : UInt8) : Action Constant := do
  let f ← frame
  orBroken .badConstant f.closure.prototype.chunk.constants[index.toNat]?

/-- A constant that is a string: a name. -/
def name (index : UInt8) : Action String := do
  match ← constant index with
  | .string s => return s.content
  | _ => broken .notString

/-! ## Objects -/

/-- Pops a class. -/
def popClass : Action ClassRef := do
  match ← pop with
  | .cls c => return c
  | _ => broken .notClass

/-- The methods of a class. -/
def methodsOf (c : ClassRef) : Action (Table Closure) := do
  orBroken .badObject (← get).methods[c.serial]?

/-- Changes the methods of a class. -/
def modifyMethods (c : ClassRef) (f : Table Closure → Table Closure) : Action Unit := fun m =>
  if c.serial < m.methods.size then .ok () { m with methods := m.methods.modify c.serial f }
  else .error (.broken .badObject) m

/-- A method of a class. -/
def method (c : ClassRef) (name : String) : Action Closure := do
  match (← methodsOf c).find? name with
  | some closure => return closure
  | none => fail (.undefinedProperty name)

/-- A field of an instance. -/
def field? (serial : Nat) (name : String) : Action (Option Value) := do
  let fields ← orBroken .badObject (← get).fields[serial]?
  return fields.find? name

/-- Gives a field of an instance a value. -/
def setField (serial : Nat) (name : String) (v : Value) : Action Unit := fun m =>
  if serial < m.fields.size then
    .ok () { m with fields := m.fields.modify serial (·.insert name v) }
  else .error (.broken .badObject) m

end Lox.Machine
