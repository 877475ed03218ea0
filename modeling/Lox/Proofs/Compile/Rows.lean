import Lox.Proofs.Compile.Heights
import Lox.Proofs.Compile.Pieces

/-!
# Control flow between pieces

In the code of a function, control flow comes to the start of a piece wherever it comes to a joint
(`Compiled.next`), and there the stack has just the height that the scope of a class tells
(`Compiled.class_height`).
-/

namespace Lox

/-- The instructions stand one after the other at an offset. -/
def Prototype.CodeAt (p : Prototype) : Nat → List Instr → Prop
  | _, [] => True
  | o, i :: is => p.chunk.instrAt? o = some i ∧ p.CodeAt (o + i.size) is

instance Prototype.decidableCodeAt (p : Prototype) : ∀ o is, Decidable (p.CodeAt o is)
  | _, [] => inferInstanceAs (Decidable True)
  | o, i :: is =>
    have := p.decidableCodeAt (o + i.size) is
    inferInstanceAs (Decidable (p.chunk.instrAt? o = some i ∧ p.CodeAt (o + i.size) is))

lemma Prototype.CodeAt.head {p : Prototype} {o : Nat} {i : Instr} {is : List Instr} (h : p.CodeAt o (i :: is)) :
    p.chunk.instrAt? o = some i := h.1

lemma Prototype.CodeAt.tail {p : Prototype} {o : Nat} {i : Instr} {is : List Instr} (h : p.CodeAt o (i :: is)) :
    p.CodeAt (o + i.size) is := h.2

lemma Prototype.CodeAt.drop {p : Prototype} {o : Nat} {is js : List Instr} (h : p.CodeAt o (is ++ js)) :
    p.CodeAt (o + codeSize is) js := by
  induction is generalizing o with
  | nil => exact h
  | cons i is ih =>
    rw [codeSize_cons, ← Nat.add_assoc]
    exact ih h.tail

namespace Compile

open Syntax

variable {p : Prototype} {Γ : Context} {start : List Local} {items piece : List Item}
  {ps before after : List (List Item)} {J : Nat → Prop} {o k : Nat} {i : Instr} {is : List Instr}

lemma Compiled.codeAt (h : Compiled p Γ start items) {before is after : List Instr}
    (split : Lox.instrs items = before ++ (is ++ after)) : p.CodeAt (codeSize before) is := by
  induction is generalizing before with
  | nil => trivial
  | cons i is ih =>
    refine ⟨h.decoded split, ?_⟩
    have moved : Lox.instrs items = (before ++ [i]) ++ (is ++ after) := by
      rw [split, List.append_assoc]
      rfl
    have further := ih moved
    rwa [codeSize_append, codeSize_cons, codeSize_nil, Nat.add_zero] at further

/-- A piece that control flow comes to. -/
structure Coming (p : Prototype) (Γ : Context) (before : List (List Item)) (piece : List Item)
    (after : List (List Item)) (i : Instr) (is : List Instr) : Prop where
  code : Lox.instrs piece = i :: is
  codeAt : p.CodeAt (itemsSize before.flatten) (i :: is)
  piece : Piece Γ (Joint (before ++ piece :: after)) (itemsSize before.flatten) piece

lemma Coming.joint (h : Coming p Γ before piece after i is) :
    Joint (before ++ piece :: after) (itemsSize before.flatten + codeSize (i :: is)) := by
  refine ⟨before ++ [piece], after, by rw [List.append_assoc]; rfl, ?_⟩
  rw [size_flatten_append, List.flatten_singleton, itemsSize, itemsSize, h.code]

/-- No piece starts with the second part of one. -/
lemma Coming.starts (h : Coming p Γ before piece after i is) :
    i.opcode ≠ .method ∧ i.opcode ≠ .inherit ∧ i.opcode ≠ .getSuper ∧ i.opcode ≠ .superInvoke := by
  obtain ⟨code, -, piece⟩ := h
  cases piece with
  | boundary => cases code
  | @plain j _ harmless =>
    obtain ⟨rfl, -⟩ := List.cons.inj code
    cases j with
    | method | inherit | getSuper | superInvoke => exact harmless.elim
    | _ => simp [Instr.opcode]
  | @jump j _ _ leads =>
    obtain ⟨rfl, -⟩ := List.cons.inj code
    cases j with
    | jump | jumpIfFalse | loop => simp [Instr.opcode]
    | _ => exact leads.elim
  | closure makes =>
    obtain ⟨rfl, -⟩ := List.cons.inj code
    cases makes
    simp [Instr.opcode]
  | superGet | superCall =>
    obtain ⟨rfl, -⟩ := List.cons.inj code
    simp [Instr.opcode]
  | cls _ same =>
    rw [instrs_boundary, same] at code
    obtain ⟨rfl, -⟩ := List.cons.inj code
    simp [Instr.opcode]

/-- Where control flow comes to a joint, a piece starts. -/
theorem Compiled.next (h : Compiled p Γ start ps.flatten) (laid : Laid Γ (Joint ps) 0 ps) (joint : Joint ps o)
    (reaches : Reaches p o k) :
    ∃ before piece after i is, ps = before ++ piece :: after ∧ itemsSize before.flatten = o ∧
      Coming p Γ before piece after i is := by
  obtain ⟨front, i, scope, back, split, place, -⟩ := h.disciplined.stays reaches
  obtain ⟨before, after, rfl, rfl⟩ := joint
  have bound : itemsSize before.flatten < itemsSize (before ++ after).flatten := by
    rw [split, itemsSize, itemsSize, instrs_append, codeSize_append, instrs_instr, codeSize_cons]
    have pos := i.size_pos
    have place_ : codeSize (Lox.instrs before.flatten) = codeSize (Lox.instrs front) := place
    omega
  clear split place front back scope reaches
  induction after generalizing before with
  | nil =>
    rw [List.append_nil] at bound
    exact absurd bound (Nat.lt_irrefl _)
  | cons piece after ih =>
    cases code : Lox.instrs piece with
    | nil =>
      have size : itemsSize (before ++ [piece]).flatten = itemsSize before.flatten := by
        rw [size_flatten_append, List.flatten_singleton]
        show _ + codeSize (Lox.instrs piece) = _
        rw [code]
        rfl
      have moved : before ++ piece :: after = (before ++ [piece]) ++ after := by
        rw [List.append_assoc]
        rfl
      rw [moved] at h laid bound ⊢
      rw [← size] at bound ⊢
      exact ih _ h laid bound
    | cons i is =>
      refine ⟨before, piece, after, i, is, rfl, rfl, code, ?_, ?_⟩
      · have split : Lox.instrs (before ++ piece :: after).flatten =
            Lox.instrs before.flatten ++ ((i :: is) ++ Lox.instrs after.flatten) := by
          rw [List.flatten_append, instrs_append, List.flatten_cons, instrs_append, code]
        exact h.codeAt split
      · have placed := laid.piece
        rwa [Nat.zero_add] at placed

/-- At the start of a class there are the locals on the stack and nothing else. -/
lemma Compiled.class_height {L : List Local}
    (h : Compiled p Γ start (before ++ (.boundary (namesOf L) :: items) :: after).flatten)
    (reaches : Reaches p (itemsSize before.flatten) k) : k = L.length := by
  have height := h.disciplined.boundaries
    (by rw [List.flatten_append, List.flatten_cons, List.cons_append]) reaches
  rw [height, length_namesOf]

end Compile

end Lox
