import Lox.Decimal.Style
import Lox.StringTable

/-!
# Chunks and prototypes

A chunk is the compiled form of one function body: its bytes, the source line of each byte, and
the pool of constants that the bytes refer to by index.  The kind of constant is a parameter
(`PoolEntry` says what a chunk has to know about it).  The constants of compiled code are numbers,
string objects and the prototypes of the functions inside the body, so `Constant` and `Prototype`
refer to each other.
-/

namespace Lox

/-- The bytes, lines and constants of a function body. -/
structure Chunk (α : Type) where
  code : Array UInt8
  /-- The line of each byte. -/
  lines : Array Nat
  constants : Array α
  deriving Repr

/-- A compiled function, with constants of type `α`. -/
structure PrototypeOf (α : Type) where
  /-- Tells the prototype from all others. -/
  serial : Nat
  /-- The name of the function; the script itself has none. -/
  name : String
  arity : UInt8
  /-- How many variables of enclosing functions the function uses. -/
  captureCount : Nat
  chunk : Chunk α
  deriving Repr

/-- The constants of compiled code. -/
inductive Constant where
  | number (x : Float)
  | string (s : StringObject)
  | prototype (p : PrototypeOf Constant)

/-- A compiled function. -/
abbrev Prototype := PrototypeOf Constant

/-- How a function is shown. -/
def PrototypeOf.display {α : Type} (p : PrototypeOf α) : String :=
  if p.name.isEmpty then "<script>" else "<fn " ++ p.name ++ ">"

/-- What a chunk has to know about an entry of its pool. -/
class PoolEntry (α : Type) where
  /-- Are two entries the same constant? -/
  same : α → α → Bool
  /-- How an entry is shown. -/
  display : α → String
  /-- The number of captured variables of an entry that is a function, and otherwise zero. -/
  captureCount : α → Nat

namespace Constant

/-- Numbers are the same by value, strings by content and functions by identity. -/
def same : Constant → Constant → Bool
  | .number x, .number y => x == y
  | .string s, .string t => s.content == t.content
  | .prototype p, .prototype q => p.serial == q.serial
  | _, _ => false

/-- How a constant is shown. -/
def display : Constant → String
  | .number x => Decimal.Style.plain.write x
  | .string s => s.content
  | .prototype p => p.display

/-- The number of captured variables of a function, and otherwise zero. -/
def captureCount : Constant → Nat
  | .prototype p => p.captureCount
  | _ => 0

instance : PoolEntry Constant := ⟨same, display, captureCount⟩

end Constant

namespace Chunk

variable {α : Type}

/-- The chunk without code and constants. -/
def empty : Chunk α := ⟨#[], #[], #[]⟩

/-- Adds a byte that belongs to a line. -/
def write (c : Chunk α) (byte : UInt8) (line : Nat) : Chunk α :=
  { c with code := c.code.push byte, lines := c.lines.push line }

/-- Adds a constant; its index is the number of constants before. -/
def addConstant (c : Chunk α) (a : α) : Chunk α := { c with constants := c.constants.push a }

/-- The number of bytes. -/
def size (c : Chunk α) : Nat := c.code.size

@[simp] theorem size_write (c : Chunk α) (byte : UInt8) (line : Nat) :
    (c.write byte line).size = c.size + 1 :=
  Array.size_push byte

/-- The index of the first constant that is the same as `a`. -/
def findConstant? [PoolEntry α] (c : Chunk α) (a : α) : Option Nat :=
  c.constants.findIdx? (PoolEntry.same · a)

/-- The line of the byte at an offset. -/
def lineAt? (c : Chunk α) (offset : Nat) : Option Nat := c.lines[offset]?

/-- The byte at an offset; a byte that is missing reads as zero. -/
def byteAt (c : Chunk α) (offset : Nat) : UInt8 := c.code.getD offset 0

/-- The two bytes at an offset as one number, the high byte first. -/
def wordAt (c : Chunk α) (offset : Nat) : UInt16 :=
  (c.byteAt offset).toUInt16 <<< 8 ||| (c.byteAt (offset + 1)).toUInt16

/-- The text of a constant, empty if it is missing. -/
def constantText [PoolEntry α] (c : Chunk α) (index : UInt8) : String :=
  (c.constants[index.toNat]?).elim "" PoolEntry.display

end Chunk

end Lox
