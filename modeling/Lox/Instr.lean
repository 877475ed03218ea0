import Lox.Chunk
import Lox.Opcode

/-!
# Instructions

An instruction with its operands, its bytes (`Instr.encode`), and the one decoder of bytes
(`Chunk.instrAt?`) that the machine and the listing share.  The only instruction whose length the
opcode does not fix is the one that makes a closure: its captures follow, as many as the function
in the pool asks for.
-/

namespace Lox

/-- Where a new closure finds a captured variable: in a slot of the running function, or among the
captures of the running closure. -/
structure Capture where
  isLocal : Bool
  index : UInt8
  deriving DecidableEq, Repr

/-- The bytes of a capture. -/
def Capture.encode (c : Capture) : List UInt8 :=
  [if c.isLocal then 1 else 0, c.index]

/-- An instruction. -/
inductive Instr where
  /-- Pushes a constant. -/
  | constant (index : UInt8)
  | pushNil | pushTrue | pushFalse
  | pop
  | getLocal (slot : UInt8) | setLocal (slot : UInt8)
  | getGlobal (name : UInt8) | defineGlobal (name : UInt8) | setGlobal (name : UInt8)
  | getUpvalue (index : UInt8) | setUpvalue (index : UInt8)
  | getProperty (name : UInt8) | setProperty (name : UInt8)
  /-- Looks a method up in the class on top of the stack. -/
  | getSuper (name : UInt8)
  | equal | greater | less
  | add | subtract | multiply | divide
  | not | negate
  | print
  /-- Goes on `distance` bytes after the instruction. -/
  | jump (distance : UInt16)
  | jumpIfFalse (distance : UInt16)
  /-- Goes on `distance` bytes before the end of the instruction. -/
  | loop (distance : UInt16)
  | call (count : UInt8)
  /-- Calls a property of an instance. -/
  | invoke (name count : UInt8)
  /-- Calls a method of the class on top of the stack. -/
  | superInvoke (name count : UInt8)
  | closure (index : UInt8) (captures : List Capture)
  | closeUpvalue
  | ret
  | makeClass (name : UInt8)
  | inherit
  | method (name : UInt8)
  deriving DecidableEq, Repr

namespace Instr

/-- The operation of an instruction. -/
def opcode : Instr → Opcode
  | .constant _ => .constant
  | .pushNil => .nil
  | .pushTrue => .true
  | .pushFalse => .false
  | .pop => .pop
  | .getLocal _ => .getLocal
  | .setLocal _ => .setLocal
  | .getGlobal _ => .getGlobal
  | .defineGlobal _ => .defineGlobal
  | .setGlobal _ => .setGlobal
  | .getUpvalue _ => .getUpvalue
  | .setUpvalue _ => .setUpvalue
  | .getProperty _ => .getProperty
  | .setProperty _ => .setProperty
  | .getSuper _ => .getSuper
  | .equal => .equal
  | .greater => .greater
  | .less => .less
  | .add => .add
  | .subtract => .subtract
  | .multiply => .multiply
  | .divide => .divide
  | .not => .not
  | .negate => .negate
  | .print => .print
  | .jump _ => .jump
  | .jumpIfFalse _ => .jumpIfFalse
  | .loop _ => .loop
  | .call _ => .call
  | .invoke _ _ => .invoke
  | .superInvoke _ _ => .superInvoke
  | .closure _ _ => .closure
  | .closeUpvalue => .closeUpvalue
  | .ret => .ret
  | .makeClass _ => .makeClass
  | .inherit => .inherit
  | .method _ => .method

/-- The bytes of a distance, the high one first. -/
def encodeDistance (distance : UInt16) : List UInt8 :=
  [(distance >>> 8).toUInt8, distance.toUInt8]

/-- The bytes after the opcode. -/
def operands : Instr → List UInt8
  | .constant index | .getLocal index | .setLocal index | .getGlobal index | .defineGlobal index
  | .setGlobal index | .getUpvalue index | .setUpvalue index | .getProperty index
  | .setProperty index | .getSuper index | .call index | .makeClass index | .method index => [index]
  | .jump distance | .jumpIfFalse distance | .loop distance => encodeDistance distance
  | .invoke name count | .superInvoke name count => [name, count]
  | .closure index captures => index :: captures.flatMap Capture.encode
  | .pushNil | .pushTrue | .pushFalse | .pop | .equal | .greater | .less | .add | .subtract
  | .multiply | .divide | .not | .negate | .print | .closeUpvalue | .ret | .inherit => []

/-- The bytes of an instruction. -/
def encode (i : Instr) : List UInt8 := i.opcode.toByte :: i.operands

/-- The number of bytes of an instruction. -/
def size : Instr → Nat
  | .constant _ | .getLocal _ | .setLocal _ | .getGlobal _ | .defineGlobal _ | .setGlobal _
  | .getUpvalue _ | .setUpvalue _ | .getProperty _ | .setProperty _ | .getSuper _ | .call _
  | .makeClass _ | .method _ => 2
  | .jump _ | .jumpIfFalse _ | .loop _ | .invoke _ _ | .superInvoke _ _ => 3
  | .closure _ captures => 2 + 2 * captures.length
  | .pushNil | .pushTrue | .pushFalse | .pop | .equal | .greater | .less | .add | .subtract
  | .multiply | .divide | .not | .negate | .print | .closeUpvalue | .ret | .inherit => 1

/-- The size of an instruction is the number of its bytes. -/
theorem length_encode (i : Instr) : i.encode.length = i.size := by
  cases i with
  | closure index captures =>
    have h : (captures.flatMap Capture.encode).length = 2 * captures.length := by
      induction captures with
      | nil => rfl
      | cons c cs ih =>
        rw [List.flatMap_cons, List.length_append, ih, List.length_cons]
        simp only [Capture.encode, List.length_cons, List.length_nil]
        omega
    simp only [encode, operands, size, List.length_cons, h]
    omega
  | _ => rfl

end Instr

namespace Chunk

variable {α : Type}

/-- The captures at an offset, `count` of them. -/
def capturesAt (c : Chunk α) : Nat → Nat → List Capture
  | 0, _ => []
  | count + 1, offset =>
    ⟨c.byteAt offset == 1, c.byteAt (offset + 1)⟩ :: c.capturesAt count (offset + 2)

/-- The number of captures of the constant at an index. -/
def captureCountAt [PoolEntry α] (c : Chunk α) (index : UInt8) : Nat :=
  (c.constants[index.toNat]?).elim 0 PoolEntry.captureCount

/-- The instruction at an offset, if the byte there is an opcode. -/
def instrAt? [PoolEntry α] (c : Chunk α) (offset : Nat) : Option Instr :=
  let first := c.byteAt (offset + 1)
  match Opcode.ofByte? (c.byteAt offset) with
  | none => none
  | some op =>
    some <| match op with
    | .constant => .constant first
    | .nil => .pushNil
    | .true => .pushTrue
    | .false => .pushFalse
    | .pop => .pop
    | .getLocal => .getLocal first
    | .setLocal => .setLocal first
    | .getGlobal => .getGlobal first
    | .defineGlobal => .defineGlobal first
    | .setGlobal => .setGlobal first
    | .getUpvalue => .getUpvalue first
    | .setUpvalue => .setUpvalue first
    | .getProperty => .getProperty first
    | .setProperty => .setProperty first
    | .getSuper => .getSuper first
    | .equal => .equal
    | .greater => .greater
    | .less => .less
    | .add => .add
    | .subtract => .subtract
    | .multiply => .multiply
    | .divide => .divide
    | .not => .not
    | .negate => .negate
    | .print => .print
    | .jump => .jump (c.wordAt (offset + 1))
    | .jumpIfFalse => .jumpIfFalse (c.wordAt (offset + 1))
    | .loop => .loop (c.wordAt (offset + 1))
    | .call => .call first
    | .invoke => .invoke first (c.byteAt (offset + 2))
    | .superInvoke => .superInvoke first (c.byteAt (offset + 2))
    | .closure => .closure first (c.capturesAt (c.captureCountAt first) (offset + 2))
    | .closeUpvalue => .closeUpvalue
    | .ret => .ret
    | .makeClass => .makeClass first
    | .inherit => .inherit
    | .method => .method first

end Chunk

end Lox
