import Lox.Instr
import Lox.Text.Column

/-!
# Listings

A chunk as text, one instruction a line: the offset, the source line if it is not that of the byte
before, the name of the operation and its operands in columns.  `Chunk.listInstr` also tells where
the next instruction starts, and `Chunk.listing` follows these offsets to the end of the code.  A
byte that is no opcode is listed as such and is one byte long, so any chunk can be listed.
-/

namespace Lox

/-- A number at the right of a column of four. -/
def column4 (n : Nat) : String := Text.alignRight ' ' 4 (toString n)

/-- An offset with leading zeros. -/
def offset4 (n : Nat) : String := Text.alignRight '0' 4 (toString n)

/-- The name of an operation that has operands. -/
def Opcode.column (op : Opcode) : String := Text.alignLeft 16 op.name ++ " "

namespace Chunk

variable {α : Type}

/-- The first columns of an instruction: its offset, and its line unless the byte before has the
same one. -/
def listPlace (c : Chunk α) (offset : Nat) : String :=
  let line := c.lineAt? offset
  offset4 offset ++ " " ++
    if 0 < offset ∧ line = c.lineAt? (offset - 1) then "   | " else column4 (line.getD 0) ++ " "

/-- The lines of the captures that are listed from an offset on. -/
def listCaptures : List Capture → Nat → String
  | [], _ => ""
  | capture :: captures, offset =>
    "\n" ++ offset4 offset ++ "    |                     " ++
      (if capture.isLocal then "local " else "upvalue ") ++ toString capture.index.toNat ++
      listCaptures captures (offset + 2)

/-- An instruction at an offset. -/
def listOperation [PoolEntry α] (c : Chunk α) (offset : Nat) (i : Instr) : String :=
  let column := i.opcode.column
  let constant (index : UInt8) : String :=
    column4 index.toNat ++ " '" ++ c.constantText index ++ "'"
  let jump (target : Int) : String := column ++ column4 offset ++ " -> " ++ toString target
  match i with
  | .constant index | .getGlobal index | .defineGlobal index | .setGlobal index
  | .getProperty index | .setProperty index | .getSuper index | .makeClass index
  | .method index => column ++ constant index
  | .getLocal slot | .setLocal slot | .getUpvalue slot | .setUpvalue slot
  | .call slot => column ++ column4 slot.toNat
  | .jump distance | .jumpIfFalse distance => jump (offset + 3 + distance.toNat)
  | .loop distance => jump (offset + 3 - distance.toNat)
  | .invoke name count | .superInvoke name count =>
    column ++ "(" ++ toString count.toNat ++ " args) " ++ constant name
  | .closure index captures =>
    column ++ column4 index.toNat ++ " " ++ c.constantText index ++ listCaptures captures (offset + 2)
  | .pushNil | .pushTrue | .pushFalse | .pop | .equal | .greater | .less | .add | .subtract
  | .multiply | .divide | .not | .negate | .print | .closeUpvalue | .ret
  | .inherit => i.opcode.name

/-- The text of the instruction at an offset, and the offset of the next one. -/
def listInstr [PoolEntry α] (c : Chunk α) (offset : Nat) : String × Nat :=
  match c.instrAt? offset with
  | some i => (c.listPlace offset ++ c.listOperation offset i, offset + i.size)
  | none =>
    (c.listPlace offset ++ "Unknown opcode " ++ toString (c.byteAt offset).toNat, offset + 1)

/-- Adds the instructions from an offset on to `text`, at most `fuel` of them. -/
def listFrom [PoolEntry α] (c : Chunk α) : Nat → Nat → String → String
  | 0, _, text => text
  | fuel + 1, offset, text =>
    if offset < c.size then
      let (line, next) := c.listInstr offset
      c.listFrom fuel next (text ++ line ++ "\n")
    else text

/-- The whole chunk under a title.  Each instruction has at least one byte, so the number of bytes
is fuel enough. -/
def listing [PoolEntry α] (c : Chunk α) (title : String) : String :=
  c.listFrom c.size 0 ("== " ++ title ++ " ==\n")

end Chunk

/-- A function under its own name. -/
def PrototypeOf.listing {α : Type} [PoolEntry α] (p : PrototypeOf α) : String :=
  p.chunk.listing p.display

end Lox
