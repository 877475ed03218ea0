/-!
# Opcodes

The operations of the machine with their bytes, which number them without gaps from zero, and the
names under which they are listed.
-/

namespace Lox

/-- The operations of the machine. -/
inductive Opcode where
  | constant | nil | true | false | pop
  | getLocal | setLocal | getGlobal | defineGlobal | setGlobal | getUpvalue | setUpvalue
  | getProperty | setProperty | getSuper
  | equal | greater | less | add | subtract | multiply | divide | not | negate
  | print | jump | jumpIfFalse | loop
  | call | invoke | superInvoke | closure | closeUpvalue | ret
  | makeClass | inherit | method
  deriving DecidableEq, Repr

namespace Opcode

/-- All opcodes in the order of their bytes. -/
def all : Array Opcode :=
  #[.constant, .nil, .true, .false, .pop,
    .getLocal, .setLocal, .getGlobal, .defineGlobal, .setGlobal, .getUpvalue, .setUpvalue,
    .getProperty, .setProperty, .getSuper,
    .equal, .greater, .less, .add, .subtract, .multiply, .divide, .not, .negate,
    .print, .jump, .jumpIfFalse, .loop,
    .call, .invoke, .superInvoke, .closure, .closeUpvalue, .ret,
    .makeClass, .inherit, .method]

/-- The byte of an opcode. -/
def toByte (op : Opcode) : UInt8 := UInt8.ofNat op.ctorIdx

/-- The opcode of a byte. -/
def ofByte? (byte : UInt8) : Option Opcode := all[byte.toNat]?

/-- The name under which an opcode is listed. -/
def name : Opcode → String
  | .constant => "Constant"
  | .nil => "Nil"
  | .true => "True"
  | .false => "False"
  | .pop => "Pop"
  | .getLocal => "GetLocal"
  | .setLocal => "SetLocal"
  | .getGlobal => "GetGlobal"
  | .defineGlobal => "DefineGlobal"
  | .setGlobal => "SetGlobal"
  | .getUpvalue => "GetUpvalue"
  | .setUpvalue => "SetUpvalue"
  | .getProperty => "GetProperty"
  | .setProperty => "SetProperty"
  | .getSuper => "GetSuper"
  | .equal => "Equal"
  | .greater => "Greater"
  | .less => "Less"
  | .add => "Add"
  | .subtract => "Subtract"
  | .multiply => "Multiply"
  | .divide => "Divide"
  | .not => "Not"
  | .negate => "Negate"
  | .print => "Print"
  | .jump => "Jump"
  | .jumpIfFalse => "JumpIfFalse"
  | .loop => "Loop"
  | .call => "Call"
  | .invoke => "Invoke"
  | .superInvoke => "SuperInvoke"
  | .closure => "Closure"
  | .closeUpvalue => "CloseUpvalue"
  | .ret => "Return"
  | .makeClass => "Class"
  | .inherit => "Inherit"
  | .method => "Method"

/-- The byte of an opcode says which one it is. -/
theorem ofByte?_toByte (op : Opcode) : ofByte? op.toByte = some op := by
  cases op <;> rfl

end Opcode

end Lox
