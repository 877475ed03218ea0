import Lox.Compile.State

/-!
# Variables

Declaring variables and finding them again.  A name means the innermost variable of that name: a
slot of the function itself, a variable that the function captures, or else a global, which is
looked up by its name when the program runs.
-/

namespace Lox.Compile

/-- Where a name leads. -/
inductive Access where
  | slot (index : UInt8)
  | captured (index : UInt8)
  | globalName (constant : UInt8)
  deriving DecidableEq, Repr

namespace Access

/-- Pushes the value of the variable. -/
def read : Access → Instr
  | .slot index => .getLocal index
  | .captured index => .getUpvalue index
  | .globalName constant => .getGlobal constant

/-- Gives the variable the value on top of the stack. -/
def write : Access → Instr
  | .slot index => .setLocal index
  | .captured index => .setUpvalue index
  | .globalName constant => .setGlobal constant

end Access

/-- Finds a name in the open bodies, as a slot or a capture of the innermost one. -/
def State.resolve (s : State) (name : String) : Option Access × State :=
  match findLocal? name s.body.locals with
  | some (slot, v) =>
    let s := (Body.useComplaints v).foldl (fun s c => s.complainOf s.previous c) s
    (some (.slot (UInt8.ofNat slot)), s)
  | none =>
    let (index, body, enclosing, complaints) := Body.resolveCapture name s.body s.enclosing
    let s := complaints.foldl (fun s c => s.complainOf s.previous c) { s with body, enclosing }
    (index.map .captured, s)

/-- Finds out where a name leads. -/
def access (name : String) : Compiling Access := do
  match ← modifyGet (·.resolve name) with
  | some place => return place
  | none => return .globalName (← stringConstant name)

/-- Pushes the value of a variable. -/
def readVariable (name : String) : Compiling Unit := do
  emit (← access name).read

/-- Adds a local variable to the innermost scope. -/
def addLocal (name : String) : Compiling Unit := do
  if maxOperands ≤ (← get).body.locals.length then complain .tooManyLocals
  else modifyBody (·.pushLocal name)

/-- Declares the variable named by the token last read, unless it is a global: those need no
declaration. -/
def declareVariable : Compiling Unit := do
  let s ← get
  unless s.body.depth = 0 do
    let name := s.previous.lexeme
    if s.body.isDeclaredHere name then complain .redeclared
    addLocal name

/-- Puts the last declared variable in scope, unless it is a global. -/
def markInitialized : Compiling Unit :=
  modifyBody fun b => if b.depth = 0 then b else b.initializeLocal

/-- Reads the name of a variable and declares it.  The result is the constant of the name if the
variable is a global. -/
def parseVariable (what : String) : Compiling UInt8 := do
  expect .identifier what
  declareVariable
  let s ← get
  if s.body.depth = 0 then stringConstant s.previous.lexeme else return 0

/-- Gives a declared variable the value on top of the stack. -/
def defineVariable (constant : UInt8) : Compiling Unit := do
  if (← get).body.depth = 0 then emit (.defineGlobal constant) else markInitialized

end Lox.Compile
