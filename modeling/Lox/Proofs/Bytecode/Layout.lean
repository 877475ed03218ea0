import Lox.Instr
import Mathlib.Tactic.Lemma

/-!
# The layout of code

Code is a row of instructions without gaps.  This file relates the three views of it: the list of
instructions, the bytes they are encoded as (`bytes`), and what the decoder finds at the offset
where an instruction starts (`instrAt?_bytes`).

The compiler's own view has more in it than the instructions: which variables were in scope when an
instruction was emitted, and where one statement ended and the next one started.  An `Item` is an
instruction or such a boundary, with the names in scope.
-/

namespace Lox

/-! ## Instructions and bytes -/

/-- The number of bytes of instructions. -/
def codeSize : List Instr → Nat
  | [] => 0
  | i :: is => i.size + codeSize is

/-- The bytes of instructions. -/
def bytes (is : List Instr) : List UInt8 := is.flatMap Instr.encode

@[simp] lemma codeSize_nil : codeSize [] = 0 := rfl

@[simp] lemma codeSize_cons (i : Instr) (is : List Instr) :
    codeSize (i :: is) = i.size + codeSize is := rfl

@[simp] lemma codeSize_append (is js : List Instr) :
    codeSize (is ++ js) = codeSize is + codeSize js := by
  induction is with
  | nil => rw [List.nil_append, codeSize_nil, Nat.zero_add]
  | cons i is ih => rw [List.cons_append, codeSize_cons, codeSize_cons, ih, Nat.add_assoc]

@[simp] lemma bytes_nil : bytes [] = [] := rfl

@[simp] lemma bytes_cons (i : Instr) (is : List Instr) : bytes (i :: is) = i.encode ++ bytes is :=
  rfl

@[simp] lemma bytes_append (is js : List Instr) : bytes (is ++ js) = bytes is ++ bytes js := by
  simp only [bytes, List.flatMap_append]

@[simp] lemma length_bytes (is : List Instr) : (bytes is).length = codeSize is := by
  induction is with
  | nil => rfl
  | cons i is ih => rw [bytes_cons, List.length_append, Instr.length_encode, ih, codeSize_cons]

lemma Instr.size_pos (i : Instr) : 0 < i.size := by
  cases i <;> simp only [Instr.size] <;> omega

/-! ## Decoding -/

/-- A distance is put together again from its two bytes. -/
lemma ofBytes_distance (d : UInt16) :
    (d >>> 8).toUInt8.toUInt16 <<< 8 ||| d.toUInt8.toUInt16 = d := by
  apply UInt16.toNat_inj.1
  have bound : d.toNat < 65536 := d.toNat_lt
  have high : (d >>> 8).toUInt8.toNat = d.toNat / 256 := by
    simp only [UInt16.toNat_toUInt8, UInt16.toNat_shiftRight, UInt16.toNat_ofNat]
    rw [Nat.shiftRight_eq_div_pow, show 2 ^ (8 % 2 ^ 16 % 16) = 256 from rfl]
    omega
  have low : d.toUInt8.toNat = d.toNat % 256 := by simp
  have shifted : ((d >>> 8).toUInt8.toUInt16 <<< 8).toNat = (d.toNat / 256) <<< 8 := by
    simp only [UInt16.toNat_shiftLeft, UInt8.toNat_toUInt16, high, UInt16.toNat_ofNat]
    rw [Nat.shiftLeft_eq, show 2 ^ (8 % 2 ^ 16 % 16) = 256 from rfl]
    omega
  rw [UInt16.toNat_or, shifted, UInt8.toNat_toUInt16, low,
    ← Nat.shiftLeft_add_eq_or_of_lt (by omega : d.toNat % 256 < 2 ^ 8), Nat.shiftLeft_eq]
  omega

namespace Chunk

variable {α : Type} {c : Chunk α} {before after : List UInt8}

lemma byteAt_of_code (h : c.code.toList = before ++ after) (k : Nat) :
    c.byteAt (before.length + k) = after.getD k 0 := by
  have entry : c.code[before.length + k]? = after[k]? := by
    rw [← Array.getElem?_toList, h, List.getElem?_append_right (Nat.le_add_right _ _),
      Nat.add_sub_cancel_left]
  rw [byteAt, Array.getD_eq_getD_getElem?, entry, List.getD_eq_getElem?_getD]

/-- Captures are read back as they were written. -/
lemma capturesAt_of_code (captures : List Capture) :
    ∀ before : List UInt8, c.code.toList = before ++ (captures.flatMap Capture.encode ++ after) →
      c.capturesAt captures.length before.length = captures := by
  induction captures with
  | nil => exact fun _ _ => rfl
  | cons capture captures ih =>
    intro before h
    have first := byteAt_of_code h 0
    have second := byteAt_of_code h 1
    have others := ih (before ++ capture.encode) (by
      rw [h, List.flatMap_cons, List.append_assoc, List.append_assoc])
    rw [List.length_append] at others
    simp only [List.flatMap_cons, Capture.encode, List.cons_append, List.nil_append,
      List.getD_cons_zero, List.getD_cons_succ, List.length_cons, List.length_nil,
      Nat.add_zero, Nat.zero_add, Nat.reduceAdd] at first second others
    simp only [List.length_cons, capturesAt, first, second, others]
    obtain ⟨isLocal, index⟩ := capture
    cases isLocal <;> rfl

end Chunk

/-- Does the pool agree about the number of captures?  It is not part of the bytes. -/
def Instr.FitsPool {α : Type} [PoolEntry α] (c : Chunk α) : Instr → Prop
  | .closure index captures => c.captureCountAt index = captures.length
  | _ => True

/-- The decoder finds the instruction whose bytes start at an offset. -/
theorem instrAt?_of_code {α : Type} [PoolEntry α] {c : Chunk α} {before after : List UInt8}
    (i : Instr) (h : c.code.toList = before ++ (i.encode ++ after)) (fits : i.FitsPool c) :
    c.instrAt? before.length = some i := by
  have opcode := Chunk.byteAt_of_code h 0
  have first := Chunk.byteAt_of_code h 1
  have second := Chunk.byteAt_of_code h 2
  rw [Nat.add_zero] at opcode
  simp only [Instr.encode, List.cons_append, List.getD_cons_zero, List.getD_cons_succ]
    at opcode first second
  simp only [Chunk.instrAt?, opcode, Opcode.ofByte?_toByte]
  cases i with
  | closure index captures =>
    have found := Chunk.capturesAt_of_code captures
      (before ++ [Opcode.closure.toByte, index]) (by
        rw [h, Instr.encode, Instr.operands, List.append_assoc]
        rfl)
    simp only [Instr.operands, List.cons_append, List.getD_cons_zero] at first
    simp only [Instr.FitsPool] at fits
    simp only [List.length_append, List.length_cons, List.length_nil, Nat.reduceAdd] at found
    simp only [Instr.opcode, first, fits, found]
  | jump d | jumpIfFalse d | loop d =>
    simp only [Instr.operands, Instr.encodeDistance, List.cons_append, List.getD_cons_zero,
      List.getD_cons_succ] at first second
    simp only [Instr.opcode, Chunk.wordAt, first, second, Nat.add_assoc, Nat.reduceAdd,
      ofBytes_distance]
  | _ =>
    simp only [Instr.operands, List.cons_append, List.getD_cons_zero, List.getD_cons_succ]
      at first second
    simp only [Instr.opcode, first, second]

/-- The decoder finds each instruction of code that is made of instructions. -/
lemma instrAt?_bytes {α : Type} [PoolEntry α] {c : Chunk α} {is js : List Instr} {i : Instr}
    (h : c.code.toList = bytes (is ++ i :: js)) (fits : i.FitsPool c) :
    c.instrAt? (codeSize is) = some i := by
  rw [← length_bytes]
  have split : c.code.toList = bytes is ++ (i.encode ++ bytes js) := by
    rw [h, bytes_append, bytes_cons]
  exact instrAt?_of_code i split fits

/-! ## Items -/

/-- An instruction, or a place between two statements, with the names of the variables in scope, the
innermost first. -/
inductive Item where
  | instr (i : Instr) (scope : List String)
  | boundary (scope : List String)

/-- The instruction of an item. -/
def Item.instr? : Item → Option Instr
  | .instr i _ => some i
  | .boundary _ => none

/-- The instructions of items. -/
def instrs (items : List Item) : List Instr := items.filterMap Item.instr?

/-- Instructions with the same names in scope. -/
def inScope (scope : List String) (is : List Instr) : List Item := is.map (.instr · scope)

@[simp] lemma instrs_nil : instrs [] = [] := rfl

@[simp] lemma instrs_instr (i : Instr) (scope : List String) (items : List Item) :
    instrs (.instr i scope :: items) = i :: instrs items := rfl

@[simp] lemma instrs_boundary (scope : List String) (items : List Item) :
    instrs (.boundary scope :: items) = instrs items := rfl

@[simp] lemma instrs_append (items items' : List Item) :
    instrs (items ++ items') = instrs items ++ instrs items' := by
  simp only [instrs, List.filterMap_append]

@[simp] lemma instrs_inScope (scope : List String) (is : List Instr) :
    instrs (inScope scope is) = is := by
  induction is with
  | nil => rfl
  | cons i is ih => exact congrArg (i :: ·) ih

@[simp] lemma inScope_nil (scope : List String) : inScope scope [] = [] := rfl

@[simp] lemma inScope_cons (scope : List String) (i : Instr) (is : List Instr) :
    inScope scope (i :: is) = .instr i scope :: inScope scope is := rfl

@[simp] lemma inScope_append (scope : List String) (is js : List Instr) :
    inScope scope (is ++ js) = inScope scope is ++ inScope scope js := by
  simp only [inScope, List.map_append]

/-- The number of bytes of items. -/
abbrev itemsSize (items : List Item) : Nat := codeSize (instrs items)

end Lox
