import Lox.Machine.Call
import Lox.Machine.Cells

/-!
# Steps

What each instruction does, and the step of the machine: reading an instruction and executing it.
An instruction that fails leaves its operands on the stack wherever it can.
-/

namespace Lox.Machine

/-! ## Operators -/

/-- Replaces two numbers by a value. -/
def numeric (f : Float → Float → Value) : Action Unit := do
  let a ← peek 1
  let b ← peek 0
  match a, b with
  | .number x, .number y =>
    let _ ← pop
    let _ ← pop
    push (f x y)
  | _, _ => fail .operandsNotNumbers

/-- Adds two numbers or joins two strings. -/
def add : Action Unit := do
  let a ← peek 1
  let b ← peek 0
  match a, b with
  | .number x, .number y =>
    let _ ← pop
    let _ ← pop
    push (.number (x + y))
  | .string s, .string t =>
    let joined ← modifyGet fun m =>
      let (object, strings) := m.strings.intern (s.content ++ t.content)
      (object, { m with strings })
    let _ ← pop
    let _ ← pop
    push (.string joined)
  | _, _ => fail .operandsNotAddable

/-- Negates a number. -/
def negate : Action Unit := do
  match ← peek 0 with
  | .number x =>
    let _ ← pop
    push (.number (-x))
  | _ => fail .operandNotNumber

/-! ## Variables and properties -/

/-- Pushes the value of a global. -/
def readGlobal (name : String) : Action Unit := do
  match (← get).globals.find? name with
  | some v => push v
  | none => fail (.undefinedVariable name)

/-- Gives a global the value on top of the stack, whether it existed or not. -/
def defineGlobal (name : String) : Action Unit := do
  let v ← pop
  modify fun m => { m with globals := m.globals.insert name v }

/-- Gives an existing global the value on top of the stack. -/
def writeGlobal (name : String) : Action Unit := do
  if (← get).globals.contains name then
    let v ← peek 0
    modify fun m => { m with globals := m.globals.insert name v }
  else fail (.undefinedVariable name)

/-- Replaces an instance by its property: a field, or else a method bound to it.  The name is read
only if there is an instance. -/
def readProperty (index : UInt8) : Action Unit := do
  match ← peek 0 with
  | .inst serial c =>
    let name ← name index
    match ← field? serial name with
    | some v =>
      let _ ← pop
      push v
    | none => bindMethod c name
  | _ => failUnread .propertyOfNoInstance

/-- Gives a field of an instance a value, and replaces both by the value.  The name is read only if
there is an instance. -/
def writeProperty (index : UInt8) : Action Unit := do
  match ← peek 1 with
  | .inst serial _ =>
    let name ← name index
    let v ← pop
    setField serial name v
    let _ ← pop
    push v
  | _ => failUnread .fieldOfNoInstance

/-! ## Functions and classes -/

/-- Pushes a new closure. -/
def pushClosure (index : UInt8) (captures : List Capture) : Action Unit := do
  match ← constant index with
  | .prototype p =>
    let captured ← captureAll captures #[]
    push (.closure (← modifyGet (·.newClosure p captured)))
  | _ => broken .notPrototype

/-- Leaves the running call: its value takes the place of the callee and all above it. -/
def ret : Action Unit := do
  let result ← pop
  let f ← frame
  modify fun m => { m with frames := m.frames.tail }
  closeCells f.base
  cutStack f.base
  if (← get).frames.isEmpty then throw .finished
  else push result

/-- Pushes a new class. -/
def pushClass (index : UInt8) : Action Unit := do
  let name ← name index
  push (.cls (← modifyGet (·.newClass name)))

/-- Pops a class and gives it the methods of the one below. -/
def inherit : Action Unit := do
  match ← peek 1 with
  | .cls superclass =>
    let c ← popClass
    let methods ← methodsOf superclass
    modifyMethods c (·.addAll methods)
  | _ => fail .superclassNotClass

/-- Pops a closure and makes it a method of the class below. -/
def addMethod (index : UInt8) : Action Unit := do
  let name ← name index
  match ← pop with
  | .closure closure =>
    match ← peek 0 with
    | .cls c => modifyMethods c (·.insert name closure)
    | _ => broken .notClass
  | _ => broken .notClosure

/-! ## Steps -/

/-- Executes an instruction that has been read. -/
def exec : Instr → Action Unit
  | .constant index => do push (← constant index).toValue
  | .pushNil => push .nil
  | .pushTrue => push (.bool true)
  | .pushFalse => push (.bool false)
  | .pop => do let _ ← pop
  | .getLocal slot => do push (← readSlot ((← frame).base + slot.toNat))
  | .setLocal slot => do writeSlot ((← frame).base + slot.toNat) (← peek 0)
  | .getGlobal index => do readGlobal (← name index)
  | .defineGlobal index => do defineGlobal (← name index)
  | .setGlobal index => do writeGlobal (← name index)
  | .getUpvalue index => do push (← readCell (← capturedCell index))
  | .setUpvalue index => do writeCell (← capturedCell index) (← peek 0)
  | .getProperty index => readProperty index
  | .setProperty index => writeProperty index
  | .getSuper index => do
    let name ← name index
    bindMethod (← popClass) name
  | .equal => do
    let b ← pop
    let a ← pop
    push (.bool (a.same b))
  | .greater => numeric fun x y => .bool (decide (x > y))
  | .less => numeric fun x y => .bool (decide (x < y))
  | .add => add
  | .subtract => numeric fun x y => .number (x - y)
  | .multiply => numeric fun x y => .number (x * y)
  | .divide => numeric fun x y => .number (x / y)
  | .not => do push (.bool (← pop).isFalsey)
  | .negate => negate
  | .print => do
    let v ← pop
    modify (·.note (.printed v.display))
  | .jump distance => do goto ((← frame).ip + distance.toNat)
  | .jumpIfFalse distance => do
    if (← peek 0).isFalsey then goto ((← frame).ip + distance.toNat)
  | .loop distance => do
    let ip := (← frame).ip
    if distance.toNat ≤ ip then goto (ip - distance.toNat) else broken .badJump
  | .call count => do callValue (← peek count.toNat) count
  | .invoke index count => do invoke (← name index) count
  | .superInvoke index count => do
    let name ← name index
    invokeFromClass (← popClass) name count
  | .closure index captures => pushClosure index captures
  | .closeUpvalue => do
    closeCells ((← get).stack.size - 1)
    let _ ← pop
  | .ret => ret
  | .makeClass index => pushClass index
  | .inherit => inherit
  | .method index => addMethod index

/-- Reads an instruction and executes it. -/
def step : Action Unit := do exec (← fetch)

end Lox.Machine
