import Lox.Instr
import Lox.Journal
import Lox.RuntimeError
import Lox.Value

/-!
# The machine

The state of the stack machine: the operand stack, the active calls, the globals, the string
objects, and what belongs to objects but may change, namely cells, methods and fields, each under
its number.  A function of the host sees its arguments with all that belongs to them, and remembers
the calls before (`Host`).  It answers with a `Blueprint`, from which the machine makes new objects and
the value; so it cannot change what there is.

An `Action` changes the state and may stop the run.  A run that stops with a `Defect` has met
something that compiled code never contains; all the other ways to stop are a program's own.
-/

namespace Lox

/-- An active call. -/
structure Frame where
  closure : Closure
  /-- The offset of the next instruction. -/
  ip : Nat
  /-- The place of slot zero on the stack. -/
  base : Nat

/-- The line of the instruction that the call is executing. -/
def Frame.line (f : Frame) : Nat := (f.closure.prototype.chunk.lineAt? (f.ip - 1)).getD 0

/-- A captured variable: a place on the stack while that is alive, and then its value. -/
inductive Cell where
  | opened (slot : Nat)
  | closed (v : Value)

namespace Cell

/-- The place on the stack, if there still is one. -/
def slot? : Cell → Option Nat
  | .opened slot => some slot
  | .closed _ => none

/-- Is it the same place, or an equal value? -/
def same : Cell → Cell → Bool
  | .opened s, .opened t => s == t
  | .closed v, .closed w => v.same w
  | _, _ => false

end Cell

/-- Objects to be made.  They get the next serial numbers in order, and may refer to each other. -/
structure NewObjects where
  /-- Closures: the function and the numbers of the captured cells of each. -/
  closures : Array (Prototype × Array Nat)
  /-- Classes, each with its methods. -/
  methods : Array (Table Closure)
  /-- Instances, each with its fields. -/
  fields : Array (Table Value)
  /-- Functions of the host: each does what the one with this serial number does. -/
  natives : Array Nat
  /-- The number of string objects. -/
  strings : Nat
  /-- The number of prototypes. -/
  prototypes : Nat
  /-- The number of bound methods. -/
  bounds : Nat

/-- A value to be made. -/
inductive Blueprint where
  /-- A value that needs no making. -/
  | value (v : Value)
  | string (content : String)
  | prototype (name : String) (captureCount : Nat)
  /-- A closure over a new prototype. -/
  | closure (name : String)
  | cls (name : String)
  /-- An instance of a new class. -/
  | inst (className : String)
  /-- A method, over a new prototype, of nil. -/
  | bound (name : String)
  | native (name : String) (arity : UInt8)
  /-- A value that may refer to new objects. -/
  | objects (new : NewObjects) (v : Value)

/-- A call of a function of the host that is over. -/
structure HostCall where
  /-- The serial number of the function. -/
  function : Nat
  arguments : Array Value
  /-- The value that came of it, if there was one. -/
  answer? : Option Value
  /-- The methods of each class, as they were. -/
  methods : Array (Table Closure)
  /-- The fields of each instance, as they were. -/
  fields : Array (Table Value)

/-- What a function of the host sees besides its arguments. -/
structure Host where
  /-- The serial number of the function. -/
  self : Nat
  /-- The reading of the clock, in seconds. -/
  now : Float
  /-- The methods of each class, by serial number. -/
  methods : Array (Table Closure)
  /-- The fields of each instance, by serial number. -/
  fields : Array (Table Value)
  /-- The calls before, of this and other functions, in their order. -/
  past : Array HostCall
  nextString : Nat
  nextPrototype : Nat
  nextClosure : Nat
  nextBound : Nat
  nextNative : Nat

/-- What a function of the host does: from what it sees and its arguments to the value to be made, or
to the reason why there is none. -/
abbrev NativeBody := Host → Array Value → Except String Blueprint

/-- The state of the machine. -/
structure Machine where
  stack : Array Value
  /-- The active calls, the innermost first. -/
  frames : List Frame
  globals : Table Value
  strings : StringTable
  /-- All cells, by their numbers. -/
  cells : Array Cell
  /-- The numbers of the open cells, that of the highest place first. -/
  openCells : List Nat
  /-- The methods of each class, by serial number. -/
  methods : Array (Table Closure)
  /-- The fields of each instance, by serial number. -/
  fields : Array (Table Value)
  /-- The functions of the host, by serial number. -/
  natives : Array NativeBody
  /-- The calls of functions of the host that are over, in their order. -/
  hostCalls : Array HostCall
  nextPrototype : Nat
  nextClosure : Nat
  nextBound : Nat
  /-- The reading of the clock, in seconds. -/
  now : Float
  journal : Array Event

/-- What compiled code never contains. -/
inductive Defect where
  | emptyStack | noFrame | badOpcode | codeEnds | badJump
  | badConstant | badSlot | badCapture | badCell | badObject
  | notString | notPrototype | notClass | notClosure
  deriving DecidableEq, Repr

/-- Why a run stops. -/
inductive Stop where
  /-- The script has returned. -/
  | finished
  | failed (error : RuntimeError)
  | broken (defect : Defect)
  deriving DecidableEq, Repr

/-- A change of the state that may stop the run. -/
abbrev Action := EStateM Stop Machine

namespace Machine

/-- The most active calls. -/
def maxFrames : Nat := 64

/-- A machine that has done nothing. -/
def empty : Machine where
  stack := #[]
  frames := []
  globals := .empty
  strings := .empty
  cells := #[]
  openCells := []
  methods := #[]
  fields := #[]
  natives := #[]
  hostCalls := #[]
  nextPrototype := 0
  nextClosure := 0
  nextBound := 0
  now := 0
  journal := #[]

instance : Inhabited Machine := ⟨empty⟩

/-- Adds an event to the journal. -/
def note (m : Machine) (e : Event) : Machine := { m with journal := m.journal.push e }

/-! ## Making values -/

/-- A new prototype without code. -/
def newPrototype (m : Machine) (name : String) (captureCount : Nat) : Prototype × Machine :=
  (⟨m.nextPrototype, name, 0, captureCount, .empty⟩, { m with nextPrototype := m.nextPrototype + 1 })

/-- A new closure. -/
def newClosure (m : Machine) (p : Prototype) (captured : Array Nat) : Closure × Machine :=
  (⟨m.nextClosure, p, captured⟩, { m with nextClosure := m.nextClosure + 1 })

/-- A new class without methods. -/
def newClass (m : Machine) (name : String) : ClassRef × Machine :=
  (⟨m.methods.size, name⟩, { m with methods := m.methods.push .empty })

/-- A new instance without fields. -/
def newInstance (m : Machine) (c : ClassRef) : Value × Machine :=
  (.inst m.fields.size c, { m with fields := m.fields.push .empty })

/-- A new bound method. -/
def newBound (m : Machine) (receiver : Value) (method : Closure) : Value × Machine :=
  (.bound m.nextBound receiver method, { m with nextBound := m.nextBound + 1 })

/-- A new function of the host. -/
def newNative (m : Machine) (name : String) (arity : UInt8) (body : NativeBody) :
    Value × Machine :=
  (.native ⟨m.natives.size, name, arity⟩, { m with natives := m.natives.push body })

/-- What a function of the host does that gives nil. -/
def givesNil : NativeBody := fun _ _ => .ok (.value .nil)

/-- What the function of the host with a serial number does. -/
def bodyOf (m : Machine) (serial : Nat) : NativeBody := m.natives[serial]?.getD givesNil

/-- Makes objects. -/
def extend (m : Machine) (new : NewObjects) : Machine := { m with
  methods := m.methods ++ new.methods
  fields := m.fields ++ new.fields
  natives := m.natives ++ new.natives.map m.bodyOf
  strings := { m.strings with next := m.strings.next + new.strings }
  nextPrototype := m.nextPrototype + new.prototypes
  nextClosure := m.nextClosure + new.closures.size
  nextBound := m.nextBound + new.bounds }

/-- Makes a value. -/
def build (m : Machine) : Blueprint → Value × Machine
  | .value v => (v, m)
  | .string content =>
    let (s, strings) := m.strings.fresh content
    (.string s, { m with strings })
  | .prototype name captureCount =>
    let (p, m) := m.newPrototype name captureCount
    (.prototype p, m)
  | .closure name =>
    let (p, m) := m.newPrototype name 0
    let (c, m) := m.newClosure p #[]
    (.closure c, m)
  | .cls name =>
    let (c, m) := m.newClass name
    (.cls c, m)
  | .inst className =>
    let (c, m) := m.newClass className
    m.newInstance c
  | .bound name =>
    let (p, m) := m.newPrototype name 0
    let (c, m) := m.newClosure p #[]
    m.newBound .nil c
  | .native name arity => m.newNative name arity givesNil
  | .objects new v => (v, m.extend new)

/-! ## The view of the host -/

/-- What the function of the host with a serial number sees. -/
def host (m : Machine) (self : Nat) : Host where
  self
  now := m.now
  methods := m.methods
  fields := m.fields
  past := m.hostCalls
  nextString := m.strings.next
  nextPrototype := m.nextPrototype
  nextClosure := m.nextClosure
  nextBound := m.nextBound
  nextNative := m.natives.size

/-- A function of the host has been called. -/
def remember (m : Machine) (function : Nat) (arguments : Array Value) (answer? : Option Value) : Machine :=
  { m with hostCalls := m.hostCalls.push ⟨function, arguments, answer?, m.methods, m.fields⟩ }

end Machine

end Lox
