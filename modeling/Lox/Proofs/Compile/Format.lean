import Lox.Proofs.Compile.Programs
import Lox.Proofs.Compile.Typing

/-!
# The format of compiled code

What the machine takes for granted when it reads code: that the code splits into instructions, that
jumps lead to the start of one, and that operands refer to entries of the right kind.  It is stated
of the bytes, as the decoder reads them (`Splits`, `OperandsFit`), and holds of every function in a
source that compiles (`compile_wellFormed`).

Nothing is left to show about the compiler here.  A function agrees with shapes, every instruction
has one, and what an instruction needs of its shape includes what it needs of its operands.
-/

namespace Lox

/-! ## Splitting code -/

/-- Decoding from an offset to the end of the code finds these instructions at these offsets. -/
inductive Splits (c : Chunk Constant) : Nat → List (Nat × Instr) → Prop where
  | done : Splits c c.size []
  | next {o i code} (decoded : c.instrAt? o = some i) (rest : Splits c (o + i.size) code) :
      Splits c o ((o, i) :: code)

/-- Instructions with their offsets. -/
def placed : Nat → List Instr → List (Nat × Instr)
  | _, [] => []
  | o, i :: is => (o, i) :: placed (o + i.size) is

lemma mem_placed {o t : Nat} {is : List Instr} {i : Instr} :
    (t, i) ∈ placed o is ↔ ∃ before after, is = before ++ i :: after ∧ t = o + codeSize before := by
  constructor
  · intro there
    induction is generalizing o with
    | nil => exact absurd there List.not_mem_nil
    | cons j is ih =>
      rcases List.mem_cons.1 there with here | there
      · obtain ⟨rfl, rfl⟩ := Prod.mk.inj here
        exact ⟨[], is, rfl, rfl⟩
      · obtain ⟨before, after, rfl, rfl⟩ := ih there
        exact ⟨j :: before, after, rfl, by rw [codeSize_cons, Nat.add_assoc]⟩
  · rintro ⟨before, after, rfl, rfl⟩
    induction before generalizing o with
    | nil => exact List.mem_cons_self
    | cons j before ih =>
      rw [codeSize_cons, ← Nat.add_assoc]
      exact List.mem_cons_of_mem _ ih

lemma starts_iff_placed {o p : Nat} {is : List Instr} :
    Starts o is p ↔ ∃ i, (p, i) ∈ placed o is := by
  constructor
  · rintro ⟨before, i, after, split, place⟩
    exact ⟨i, mem_placed.2 ⟨before, after, split, place⟩⟩
  · rintro ⟨i, there⟩
    obtain ⟨before, after, split, place⟩ := mem_placed.1 there
    exact ⟨before, i, after, split, place⟩

lemma getLast?_placed (o : Nat) (is : List Instr) (i : Instr) :
    (placed o (is ++ [i])).getLast?.map Prod.snd = some i := by
  induction is generalizing o with
  | nil => rfl
  | cons j is ih =>
    have later := ih (o + j.size)
    rw [List.cons_append, placed]
    cases rest : placed (o + j.size) (is ++ [i]) with
    | nil =>
      rw [rest] at later
      cases later
    | cons entry code =>
      rw [rest] at later
      rw [List.getLast?_cons_cons]
      exact later

/-- Code that is made of instructions splits into them. -/
lemma splits_bytes {c : Chunk Constant} {is : List Instr} (code : c.code.toList = bytes is)
    (fits : ∀ i ∈ is, i.FitsPool c) : Splits c 0 (placed 0 is) := by
  have suffix : ∀ before after, is = before ++ after →
      Splits c (codeSize before) (placed (codeSize before) after) := by
    intro before after split
    induction after generalizing before with
    | nil =>
      have size : codeSize before = c.size := by
        rw [Chunk.size, ← Array.length_toList, code, length_bytes, split, List.append_nil]
      rw [size]
      exact .done
    | cons i after ih =>
      have there : i ∈ is := by
        rw [split]
        exact List.mem_append_right _ List.mem_cons_self
      have decoded : c.instrAt? (codeSize before) = some i :=
        instrAt?_bytes (split ▸ code) (fits i there)
      have rest := ih (before ++ [i]) (by rw [split, List.append_assoc]; rfl)
      rw [codeSize_append, codeSize_cons, codeSize_nil, Nat.add_zero] at rest
      exact .next decoded rest
  exact suffix [] is rfl

/-! ## Well-formed functions -/

/-- The operands of an instruction at an offset of a function refer to what they should, where
`starts` are the offsets that a jump may lead to. -/
def OperandsFit (p : Prototype) (starts : Nat → Prop) (o : Nat) : Instr → Prop
  | .jump distance | .jumpIfFalse distance => starts (o + 3 + distance.toNat)
  | .loop distance => ∃ target, target + distance.toNat = o + 3 ∧ starts target
  | .constant index =>
    (∃ x, p.chunk.constants[index.toNat]? = some (.number x)) ∨
      ∃ s, p.chunk.constants[index.toNat]? = some (.string s)
  | .getGlobal index | .defineGlobal index | .setGlobal index | .getProperty index
  | .setProperty index | .getSuper index | .invoke index _ | .superInvoke index _ | .makeClass index
  | .method index => ∃ s, p.chunk.constants[index.toNat]? = some (.string s)
  | .getUpvalue index | .setUpvalue index => index.toNat < p.captureCount
  | .closure index captures =>
    ∃ q, p.chunk.constants[index.toNat]? = some (.prototype q) ∧
      captures.length = q.captureCount ∧ captures.Nodup ∧
      (∀ k < captures.length, p.chunk.byteAt (o + 2 + 2 * k) = 0 ∨
        p.chunk.byteAt (o + 2 + 2 * k) = 1) ∧
      ∀ capture ∈ captures, capture.isLocal = false → capture.index.toNat < p.captureCount
  | _ => True

/-- The code of a function splits into instructions with operands that fit, the last of which is a
return, and the operands of one byte are enough for its constants and captures. -/
structure WellFormed (p : Prototype) : Prop where
  constantsFit : p.chunk.constants.size ≤ 256
  capturesFit : p.captureCount ≤ 256
  code : ∃ code, Splits p.chunk 0 code ∧ code.getLast?.map Prod.snd = some .ret ∧
    ∀ entry ∈ code,
      OperandsFit p (fun target => ∃ i, (target, i) ∈ code) entry.1 entry.2

namespace Compile

open Syntax

variable {p : Prototype} {Γ : Context} {start : List Local} {items : List Item} {E : Shapes}
  {σ τ : Shape} {o : Nat}

/-- The first byte of each capture tells one of two things. -/
lemma captures_bytes (captures : List Capture) (after : List UInt8) :
    ∀ k < captures.length, (captures.flatMap Capture.encode ++ after).getD (2 * k) 0 = 0 ∨
      (captures.flatMap Capture.encode ++ after).getD (2 * k) 0 = 1 := by
  induction captures with
  | nil => exact fun k bound => absurd bound (Nat.not_lt_zero k)
  | cons capture captures ih =>
    intro k bound
    cases k with
    | zero =>
      obtain ⟨direct, index⟩ := capture
      cases direct
      · exact .inl rfl
      · exact .inr rfl
    | succ k => exact ih k (Nat.lt_of_succ_lt_succ bound)

lemma Compiled.entry (h : Compiled p Γ start items) {index : Nat} {c : Constant}
    (entry : Γ.surroundings.pool[index]? = some c) : p.chunk.constants[index]? = some c := by
  rw [h.pool]
  exact entry

/-- The decoder agrees with the compiler about the captures of a closure. -/
lemma Compiled.fitsPool (h : Compiled p Γ start items) {before after : List Instr} {i : Instr}
    (split : instrs items = before ++ i :: after) : i.FitsPool p.chunk := by
  obtain ⟨E, -, -, valid⟩ := h.ends.shapes
  obtain ⟨σ, -, -, -, flows⟩ := valid.instr split
  cases i with
  | closure index captures =>
    obtain ⟨τ, exec, -⟩ := flows
    cases exec with
    | literal kind | unary kind | binary kind => cases kind
    | closure entry _ count =>
      show p.chunk.captureCountAt index = captures.length
      rw [Chunk.captureCountAt, h.entry entry, count]
      rfl
  | _ => trivial

lemma Compiled.decoded (h : Compiled p Γ start items) {before after : List Instr} {i : Instr}
    (split : instrs items = before ++ i :: after) :
    p.chunk.instrAt? (codeSize before) = some i :=
  instrAt?_bytes (split ▸ h.code) (h.fitsPool split)

/-- What an instruction needs of its shape includes what it needs of its operands. -/
lemma Compiled.operandsFit (h : Compiled p Γ start items) {before after : List Instr} {i : Instr}
    (split : instrs items = before ++ i :: after) :
    OperandsFit p (fun target => ∃ i, (target, i) ∈ placed 0 (instrs items)) (codeSize before) i := by
  obtain ⟨E, starts, -, valid⟩ := h.ends.shapes
  obtain ⟨σ, -, -, -, flows⟩ := valid.instr split
  obtain ⟨_, _, _, _, -, assembles, -⟩ := h.assembles
  have leads : ∀ {t υ}, Goes E t υ → ∃ i, (t, i) ∈ placed 0 (instrs items) := by
    rintro t υ ⟨υ', there, -⟩
    exact starts_iff_placed.1 (starts t υ' there)
  rw [Nat.zero_add] at flows
  have isName : ∀ {index x}, Γ.surroundings.IsName index x →
      ∃ s, p.chunk.constants[index.toNat]? = some (.string s) := by
    rintro index x ⟨object, entry, -⟩
    exact ⟨object, h.entry entry⟩
  cases i with
  | jump distance => exact leads flows
  | jumpIfFalse distance => exact leads flows.2.1
  | loop distance =>
    refine ⟨_, ?_, leads flows.2⟩
    exact Nat.sub_add_cancel flows.1
  | ret => trivial
  | constant index =>
    obtain ⟨τ, exec, -⟩ := flows
    cases exec with
    | literal kind | unary kind | binary kind => cases kind
    | @constant _ c _ _ entry plain =>
      have entry' := h.entry entry
      cases c with
      | number x => exact Or.inl ⟨x, entry'⟩
      | string s => exact Or.inr ⟨s, entry'⟩
      | prototype q => exact absurd rfl (plain q)
  | closure index captures =>
    obtain ⟨τ, exec, -⟩ := flows
    cases exec with
    | literal kind | unary kind | binary kind => cases kind
    | @closure _ _ q kinds _ _ entry _ count distinct found =>
      refine ⟨q, h.entry entry, count, distinct, ?_, ?_⟩
      · have code := h.code
        rw [split, bytes_append, bytes_cons, Instr.encode, Instr.operands] at code
        intro k bound
        have bytes_ := Chunk.byteAt_of_code code (2 + 2 * k)
        rw [length_bytes, ← Nat.add_assoc] at bytes_
        rw [bytes_, Nat.add_comm 2]
        exact captures_bytes captures _ k bound
      · intro capture there other
        obtain ⟨i, bound, rfl⟩ := List.mem_iff_getElem.1 there
        have outer := found i bound
        rw [Surroundings.Finds, other, if_neg Bool.false_ne_true] at outer
        rw [assembles.captureCount]
        exact outer.1
  | getUpvalue index =>
    obtain ⟨τ, exec, -⟩ := flows
    cases exec with
    | literal kind | unary kind | binary kind => cases kind
    | getUpvalue bound =>
      show index.toNat < p.captureCount
      rw [assembles.captureCount]
      exact bound
  | setUpvalue index =>
    obtain ⟨τ, exec, -⟩ := flows
    cases exec with
    | literal kind | unary kind | binary kind => cases kind
    | setUpvalue _ bound =>
      show index.toNat < p.captureCount
      rw [assembles.captureCount]
      exact bound
  | _ =>
    obtain ⟨τ, exec, -⟩ := flows
    cases exec with
    | literal kind | unary kind | binary kind => cases kind <;> trivial
    | _ => first | exact isName (by assumption) | trivial

theorem Compiled.wellFormed (h : Compiled p Γ start items) : WellFormed p := by
  obtain ⟨_, _, body, stop, split, assembles, -⟩ := h.assembles
  refine ⟨?_, ?_, placed 0 (instrs items), ?_, ?_, ?_⟩
  · rw [assembles.constants]
    exact assembles.constantsFit
  · rw [assembles.captureCount]
    exact assembles.capturesFit
  · refine splits_bytes h.code fun i there => ?_
    obtain ⟨before, after, split⟩ := List.append_of_mem there
    exact h.fitsPool split
  · obtain ⟨is, last⟩ : ∃ is, returnCode Γ.kind = is ++ [Instr.ret] := by
      cases Γ.kind
      · exact ⟨[.pushNil], rfl⟩
      · exact ⟨[.pushNil], rfl⟩
      · exact ⟨[.pushNil], rfl⟩
      · exact ⟨[.getLocal 0], rfl⟩
    rw [split, instrs_append, instrs_under, last, ← List.append_assoc]
    exact getLast?_placed 0 _ .ret
  · rintro ⟨o, i⟩ there
    obtain ⟨before, after, split, rfl⟩ := mem_placed.1 there
    rw [Nat.zero_add]
    exact h.operandsFit split

end Compile

open Compile Syntax

/-! ## Sources -/

/-- The script of a source that compiles is a compiled function, which captures nothing. -/
theorem compile_compiled {source : String} {strings : StringTable} {serial : Nat} {p : Prototype}
    (compiles : (compile source strings serial).outcome = .ok p) :
    ∃ Γ v items, Γ.around = [] ∧ Compiled p Γ [v] items := by
  obtain ⟨ds, -, proper, Γ, v, items, L, kind, around, named, emits, assembles⟩ :=
    compile_emits compiles
  exact ⟨Γ, v, _, around, .script kind around named emits proper assembles⟩

/-- Every function in a source that compiles is well-formed. -/
theorem compile_wellFormed {source : String} {strings : StringTable} {serial : Nat}
    {p q : Prototype} (compiles : (compile source strings serial).outcome = .ok p) (inside : Contains p q) :
    WellFormed q := by
  obtain ⟨Γ, v, items, -, compiled⟩ := compile_compiled compiles
  obtain ⟨Γ', start, items', compiled'⟩ := compiled.contains inside
  exact compiled'.wellFormed

/-- Closures, a loop, and a class with a superclass. -/
theorem compile_wellFormed_closures :
    ∃ p, (compile
        "fun f(a) \x7b fun g() \x7b print a; a = f; \x7d while (a) return g; \x7d class A < B \x7b m() \x7b super.m(); \x7d \x7d"
        .empty 0).outcome = .ok p ∧ ∀ q, Contains p q → WellFormed q := by
  generalize result : (compile _ _ _).outcome = outcome
  have compiles : outcome.toOption.isSome = true := by
    rw [← result]
    decide +kernel
  cases outcome with
  | error _ => cases compiles
  | ok p => exact ⟨p, rfl, fun q inside => compile_wellFormed result inside⟩

end Lox
