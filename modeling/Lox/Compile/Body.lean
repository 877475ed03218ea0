import Lox.Diagnostic
import Lox.Instr

/-!
# Function bodies under construction

A `Body` collects what is known of a function while its text is read: its instructions, its
constants, the local variables in scope with their slots, and the variables it captures from the
bodies around it.  `Body.resolveCapture` finds a name in those bodies, one after the other, and
threads the variable through every body in between.  `Body.assemble` turns a finished body into
the bytes of a prototype.
-/

namespace Lox.Compile

/-! ## Limits -/

/-- An operand of one byte tells so many locals, captures or constants apart. -/
def maxOperands : Nat := 256

/-- The most parameters or arguments. -/
def maxArity : Nat := 255

/-- The longest distance of a jump. -/
def maxDistance : Nat := 65535

/-- How deep statements, expressions and bodies may be nested. -/
def maxNesting : Nat := 128

/-! ## Locals -/

/-- A local variable. -/
structure Local where
  name : String
  /-- The scope that declares it; none until its initializer has been read. -/
  depth : Option Nat
  /-- Does a function inside capture it? -/
  isCaptured : Bool
  deriving DecidableEq, Repr

/-- Finds the innermost variable of a name among the locals, the innermost first: its slot, which
is the number of locals further out, and the variable. -/
def findLocal? (name : String) : List Local → Option (Nat × Local)
  | [] => none
  | v :: outer => if v.name = name then some (outer.length, v) else findLocal? name outer

/-- A variable that is found has a slot below the number of locals. -/
theorem findLocal?_lt {name : String} {vs : List Local} {slot : Nat} {v : Local}
    (h : findLocal? name vs = some (slot, v)) : slot < vs.length := by
  induction vs with
  | nil => simp [findLocal?] at h
  | cons w outer ih =>
    rw [findLocal?] at h
    split at h
    · obtain ⟨rfl, rfl⟩ := Prod.mk.inj (Option.some.inj h)
      exact Nat.lt_succ_self _
    · exact Nat.lt_succ_of_lt (ih h)

/-- Marks the innermost variable of a name as captured. -/
def markCaptured (name : String) : List Local → List Local
  | [] => []
  | v :: outer =>
    if v.name = name then { v with isCaptured := true } :: outer else v :: markCaptured name outer

@[simp] theorem length_markCaptured (name : String) (vs : List Local) :
    (markCaptured name vs).length = vs.length := by
  induction vs with
  | nil => rfl
  | cons v outer ih =>
    rw [markCaptured]
    split
    · rfl
    · rw [List.length_cons, ih, List.length_cons]

/-! ## Bodies -/

/-- What a body belongs to. -/
inductive BodyKind where
  | script
  | function
  | method
  | initializer
  deriving DecidableEq, Repr

/-- The name of slot zero: methods find their receiver there, other functions nothing they could
name. -/
def BodyKind.slotZero : BodyKind → String
  | .method | .initializer => "this"
  | .script | .function => ""

/-- A function body under construction. -/
structure Body where
  kind : BodyKind
  name : String
  arity : Nat
  /-- The locals in scope, the innermost first. -/
  locals : List Local
  /-- The captured variables, in the order of their first use. -/
  captures : Array Capture
  /-- How many scopes are open. -/
  depth : Nat
  /-- The instructions so far, each with its line. -/
  code : Array (Instr × Nat)
  /-- The number of bytes of the instructions so far. -/
  size : Nat
  constants : Array Constant

namespace Body

/-- A body of which nothing has been read. -/
def start (kind : BodyKind) (name : String) : Body where
  kind := kind
  name := name
  arity := 0
  locals := [⟨kind.slotZero, some 0, false⟩]
  captures := #[]
  depth := 0
  code := #[]
  size := 0
  constants := #[]

/-- Adds an instruction. -/
def emit (b : Body) (i : Instr) (line : Nat) : Body :=
  { b with code := b.code.push (i, line), size := b.size + i.size }

/-- Turns the jump at an index of the code into one of the given distance. -/
def aimJump (b : Body) (index : Nat) (distance : UInt16) : Body :=
  let aim : Instr × Nat → Instr × Nat
    | (.jump _, line) => (.jump distance, line)
    | (.jumpIfFalse _, line) => (.jumpIfFalse distance, line)
    | other => other
  { b with code := b.code.modify index aim }

/-- The index of a constant that is in the pool already. -/
def findConstant? (b : Body) (c : Constant) : Option Nat :=
  b.constants.findIdx? (Constant.same · c)

/-- Adds a constant to the pool. -/
def addConstant (b : Body) (c : Constant) : Body := { b with constants := b.constants.push c }

/-- Has the innermost scope a variable of this name?  A variable whose initializer is being read
belongs to the innermost scope. -/
def isDeclaredHere (b : Body) (name : String) : Bool :=
  (b.locals.takeWhile fun v => v.depth.all (b.depth ≤ ·)).any (·.name == name)

/-- Adds a variable whose initializer is still to be read. -/
def pushLocal (b : Body) (name : String) : Body :=
  { b with locals := ⟨name, none, false⟩ :: b.locals }

/-- Puts the last declared variable in scope. -/
def initializeLocal (b : Body) : Body :=
  match b.locals with
  | [] => b
  | v :: outer => { b with locals := { v with depth := some b.depth } :: outer }

/-- The variables of the innermost scope, the innermost first. -/
def scopeLocals (b : Body) : List Local :=
  b.locals.takeWhile fun v => v.depth.any (b.depth ≤ ·)

/-- Leaves the innermost scope. -/
def leaveScope (b : Body) : Body :=
  { b with
    locals := b.locals.dropWhile fun v => v.depth.any (b.depth ≤ ·)
    depth := b.depth - 1 }

/-! ## Captures -/

/-- The index of a capture, added at its first use; no more are added when the operands have run
out. -/
def addCapture (b : Body) (c : Capture) : UInt8 × Body × List Complaint :=
  match b.captures.findIdx? (· == c) with
  | some index => (UInt8.ofNat index, b, [])
  | none =>
    if maxOperands ≤ b.captures.size then (0, b, [.tooManyCaptures])
    else (UInt8.ofNat b.captures.size, { b with captures := b.captures.push c }, [])

/-- What there is to complain of when a variable is used. -/
def useComplaints (v : Local) : List Complaint :=
  if v.depth.isNone then [.ownInitializer] else []

/-- Finds a name in the bodies around `b`, the nearest first, as a capture of `b`.  The result has
the index of the capture if the name is found, the bodies with their new captures, and what there
is to complain of. -/
def resolveCapture (name : String) (b : Body) :
    List Body → Option UInt8 × Body × List Body × List Complaint
  | [] => (none, b, [], [])
  | around :: further =>
    match findLocal? name around.locals with
    | some (slot, v) =>
      let (index, b, complaints) := b.addCapture ⟨true, UInt8.ofNat slot⟩
      let around := { around with locals := markCaptured name around.locals }
      (some index, b, around :: further, useComplaints v ++ complaints)
    | none =>
      match resolveCapture name around further with
      | (none, around, further, complaints) => (none, b, around :: further, complaints)
      | (some outer, around, further, complaints) =>
        let (index, b, more) := b.addCapture ⟨false, outer⟩
        (some index, b, around :: further, complaints ++ more)

/-! ## Assembly -/

/-- The bytes of the instructions, with the constants. -/
def chunk (b : Body) : Chunk Constant :=
  b.code.foldl
    (fun c (instr, line) => instr.encode.foldl (fun c byte => c.write byte line) c)
    { (Chunk.empty : Chunk Constant) with constants := b.constants }

/-- The finished function. -/
def assemble (b : Body) (serial : Nat) : Prototype where
  serial := serial
  name := b.name
  arity := UInt8.ofNat b.arity
  captureCount := b.captures.size
  chunk := b.chunk

end Body

end Lox.Compile
