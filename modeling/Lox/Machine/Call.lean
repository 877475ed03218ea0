import Lox.Machine.Stack

/-!
# Calls

A call finds the callee below its arguments on the stack.  Calling a closure makes that place slot
zero of a new frame; a bound method first puts its receiver there, and a class a new instance.
-/

namespace Lox.Machine

/-- Calls a closure with the arguments on the stack. -/
def call (closure : Closure) (count : UInt8) : Action Unit := fun m =>
  let arity := closure.prototype.arity
  if arity ≠ count then .error (.failed (.arityMismatch arity count)) m
  else if maxFrames ≤ m.frames.length then .error (.failed .stackOverflow) m
  else if count.toNat < m.stack.size then
    .ok () { m with frames := ⟨closure, 0, m.stack.size - 1 - count.toNat⟩ :: m.frames }
  else .error (.broken .emptyStack) m

/-- Calls a function of the host: its value takes the place of callee and arguments. -/
def callNative (f : NativeRef) (count : UInt8) : Action Unit := do
  if f.arity ≠ count then fail (.arityMismatch f.arity count)
  else
    let m ← get
    let body ← orBroken .badObject m.natives[f.serial]?
    let start := m.stack.size - count.toNat
    let arguments := m.stack.extract start m.stack.size
    match body (m.host f.serial) arguments with
    | .error message =>
      modify (·.remember f.serial arguments none)
      fail (.native f.name message)
    | .ok blueprint =>
      let v ← make blueprint
      modify (·.remember f.serial arguments (some v))
      cutStack (start - 1)
      push v

/-- Calls a class: makes an instance and calls its initializer, if the class has one. -/
def construct (c : ClassRef) (count : UInt8) : Action Unit := do
  let made ← modifyGet (·.newInstance c)
  replace count.toNat made
  match (← methodsOf c).find? "init" with
  | some initializer => call initializer count
  | none => unless count = 0 do fail (.arityMismatch 0 count)

/-- Calls a value. -/
def callValue (callee : Value) (count : UInt8) : Action Unit := do
  match callee with
  | .bound _ receiver closure =>
    replace count.toNat receiver
    call closure count
  | .cls c => construct c count
  | .closure closure => call closure count
  | .native f => callNative f count
  | _ => fail .notCallable

/-- Calls a method of a class on the receiver below the arguments. -/
def invokeFromClass (c : ClassRef) (name : String) (count : UInt8) : Action Unit := do
  call (← method c name) count

/-- Calls a property of the instance below the arguments.  A field shadows a method of the same
name. -/
def invoke (name : String) (count : UInt8) : Action Unit := do
  match ← peek count.toNat with
  | .inst serial c =>
    match ← field? serial name with
    | some callee =>
      replace count.toNat callee
      callValue callee count
    | none => invokeFromClass c name count
  | _ => fail .methodOfNoInstance

/-- Replaces the receiver on top of the stack by a method bound to it. -/
def bindMethod (c : ClassRef) (name : String) : Action Unit := do
  let closure ← method c name
  let receiver ← pop
  push (← modifyGet (·.newBound receiver closure))

end Lox.Machine
