import Lox.Listing
import Lox.Proofs.Compile.Accesses
import Lox.Proofs.Machine.Transfer

/-!
# Listings show what the machine reads

The machine of the source reads its code one byte at a time: an opcode, and then as many operands as
the operation has (`readInstr`).  For compiled functions that is the same as to read an instruction
at once.

The listing of a chunk goes from row to row (`Chunk.Lists`).  Each row starts inside the code and the
next one starts after it, whatever the bytes are, so there is an end of it.  In a compiled function
there is a row for each instruction, which says where the machine goes on (`ReadsAsListed`).
-/

namespace Lox

/-! ## Rows -/

namespace Chunk

variable {α : Type} [PoolEntry α]

/-- Listing a chunk from an offset on, there are rows that start at these offsets. -/
inductive Lists (c : Chunk α) : Nat → List Nat → Prop where
  | done {o} (beyond : c.size ≤ o) : Lists c o []
  | next {o rows} (inside : o < c.size) (rest : Lists c (c.listInstr o).2 rows) :
      Lists c o (o :: rows)

variable {c : Chunk α} {o : Nat} {rows : List Nat}

/-- The text of rows. -/
def rowsText (c : Chunk α) (rows : List Nat) : String :=
  String.join (rows.map fun o => (c.listInstr o).1 ++ "\n")

lemma rowsText_cons (c : Chunk α) (o : Nat) (rows : List Nat) :
    c.rowsText (o :: rows) = (c.listInstr o).1 ++ "\n" ++ c.rowsText rows := by
  rw [rowsText, List.map_cons, String.join_cons, rowsText]

/-- The next row starts after this one. -/
lemma lt_listInstr (c : Chunk α) (o : Nat) : o < (c.listInstr o).2 := by
  unfold listInstr
  split
  · exact Nat.lt_add_of_pos_right (Instr.size_pos _)
  · exact Nat.lt_succ_self o

/-- There is an end of the rows, and fuel for as many rows as there are bytes left is enough. -/
lemma exists_lists (c : Chunk α) (o : Nat) :
    ∃ rows, c.Lists o rows ∧ ∀ fuel, c.size ≤ o + fuel → ∀ text,
      c.listFrom fuel o text = text ++ c.rowsText rows := by
  by_cases inside : o < c.size
  · have later := c.lt_listInstr o
    obtain ⟨rows, rest, texts⟩ := c.exists_lists (c.listInstr o).2
    refine ⟨o :: rows, .next inside rest, fun fuel enough text => ?_⟩
    cases fuel with
    | zero => omega
    | succ fuel =>
      rw [listFrom, if_pos inside, rowsText_cons]
      dsimp only
      rw [texts fuel (by omega)]
      simp only [String.append_assoc]
  · refine ⟨[], .done (Nat.le_of_not_lt inside), fun fuel _ text => ?_⟩
    have ends : c.listFrom fuel o text = text := by
      cases fuel with
      | zero => rfl
      | succ fuel => rw [listFrom, if_neg inside]
    rw [ends]
    exact (String.append_empty).symm
termination_by c.size - o

namespace Lists

lemma unique {rows' : List Nat} (h : c.Lists o rows) (h' : c.Lists o rows') : rows = rows' := by
  induction h generalizing rows' with
  | done beyond =>
    cases h' with
    | done => rfl
    | next inside => omega
  | next inside _ ih =>
    cases h' with
    | done => omega
    | next _ rest => rw [ih rest]

lemma le (h : c.Lists o rows) : ∀ r ∈ rows, o ≤ r := by
  induction h with
  | done => exact fun r there => absurd there List.not_mem_nil
  | @next o rows _ _ ih =>
    intro r there
    rcases List.mem_cons.1 there with rfl | there
    · exact Nat.le_refl _
    · exact Nat.le_trans (Nat.le_of_lt (c.lt_listInstr o)) (ih r there)

lemma inside (h : c.Lists o rows) : ∀ r ∈ rows, r < c.size := by
  induction h with
  | done => exact fun r there => absurd there List.not_mem_nil
  | next inside _ ih =>
    intro r there
    rcases List.mem_cons.1 there with rfl | there
    · exact inside
    · exact ih r there

lemma sorted (h : c.Lists o rows) : rows.Pairwise (· < ·) := by
  induction h with
  | done => exact .nil
  | @next o rows _ rest ih =>
    exact .cons (fun r there => Nat.lt_of_lt_of_le (c.lt_listInstr o) (rest.le r there)) ih

/-- The listing is made of the rows. -/
lemma listing (h : c.Lists 0 rows) (title : String) :
    c.listing title = "== " ++ title ++ " ==\n" ++ c.rowsText rows := by
  obtain ⟨rows', lists, texts⟩ := c.exists_lists 0
  rw [h.unique lists]
  exact texts c.size (Nat.le_of_eq (Nat.zero_add _).symm) _

end Lists

end Chunk

lemma Chunk.length_capturesAt {α : Type} (c : Chunk α) (count o : Nat) :
    (c.capturesAt count o).length = count := by
  induction count generalizing o with
  | zero => rfl
  | succ count ih => rw [capturesAt, List.length_cons, ih]

/-- Code that splits into instructions is listed in rows that start where these do. -/
lemma Splits.lists {c : Chunk Constant} {o : Nat} {code : List (Nat × Instr)}
    (h : Splits c o code) : c.Lists o (code.map Prod.fst) := by
  induction h with
  | done => exact .done (Nat.le_refl _)
  | @next o i code decoded rest ih =>
    have pos := i.size_pos
    have bound := rest.le
    refine .next (by omega) ?_
    rw [Chunk.listInstr, decoded]
    exact ih

lemma Splits.decoded {c : Chunk Constant} {o : Nat} {code : List (Nat × Instr)}
    (h : Splits c o code) {t : Nat} {i : Instr} (there : (t, i) ∈ code) :
    c.instrAt? t = some i ∧ t + i.size ≤ c.size := by
  induction h with
  | done => exact absurd there List.not_mem_nil
  | next decoded rest ih =>
    rcases List.mem_cons.1 there with same | there
    · obtain ⟨rfl, rfl⟩ := Prod.mk.inj same
      exact ⟨decoded, rest.le⟩
    · exact ih there

/-! ## Reading bytes -/

namespace Machine

variable {α β : Type} {c : Chunk Constant} {o n n' : Nat} {i : Instr} {m : Machine} {f : Frame}
  {callers : List Frame}

/-- Reads the next byte of the running call. -/
def readByte : Action UInt8 := fun m =>
  match m.frames with
  | [] => .error (.broken .noFrame) m
  | f :: callers =>
    match f.closure.prototype.chunk.code[f.ip]? with
    | some byte => .ok byte { m with frames := { f with ip := f.ip + 1 } :: callers }
    | none => .error (.broken .codeEnds) m

/-- Reads two bytes, the high one first. -/
def readWord : Action UInt16 := do
  let high ← readByte
  let low ← readByte
  return high.toUInt16 <<< 8 ||| low.toUInt16

/-- Reads captures, each of two bytes. -/
def readCaptures : Nat → Action (List Capture)
  | 0 => return []
  | count + 1 => do
    let direct ← readByte
    let index ← readByte
    return ⟨direct == 1, index⟩ :: (← readCaptures count)

/-- Reads the index of a function and the captures that a closure of it needs. -/
def readClosure : Action Instr := do
  let index ← readByte
  match ← constant index with
  | .prototype p => return .closure index (← readCaptures p.captureCount)
  | _ => broken .notPrototype

/-- Reads the operands of an operation. -/
def readOperands : Opcode → Action Instr
  | .constant => return .constant (← readByte)
  | .nil => return .pushNil
  | .true => return .pushTrue
  | .false => return .pushFalse
  | .pop => return .pop
  | .getLocal => return .getLocal (← readByte)
  | .setLocal => return .setLocal (← readByte)
  | .getGlobal => return .getGlobal (← readByte)
  | .defineGlobal => return .defineGlobal (← readByte)
  | .setGlobal => return .setGlobal (← readByte)
  | .getUpvalue => return .getUpvalue (← readByte)
  | .setUpvalue => return .setUpvalue (← readByte)
  | .getProperty => return .getProperty (← readByte)
  | .setProperty => return .setProperty (← readByte)
  | .getSuper => return .getSuper (← readByte)
  | .equal => return .equal
  | .greater => return .greater
  | .less => return .less
  | .add => return .add
  | .subtract => return .subtract
  | .multiply => return .multiply
  | .divide => return .divide
  | .not => return .not
  | .negate => return .negate
  | .print => return .print
  | .jump => return .jump (← readWord)
  | .jumpIfFalse => return .jumpIfFalse (← readWord)
  | .loop => return .loop (← readWord)
  | .call => return .call (← readByte)
  | .invoke => do
    let name ← readByte
    return .invoke name (← readByte)
  | .superInvoke => do
    let name ← readByte
    return .superInvoke name (← readByte)
  | .closure => readClosure
  | .closeUpvalue => return .closeUpvalue
  | .ret => return .ret
  | .makeClass => return .makeClass (← readByte)
  | .inherit => return .inherit
  | .method => return .method (← readByte)

/-- Reads an instruction of the running call, one byte after the other. -/
def readInstr : Action Instr := do
  match Opcode.ofByte? (← readByte) with
  | some op => readOperands op
  | none => broken .badOpcode

/-- The machine, with its running call at an offset. -/
def standing (m : Machine) (f : Frame) (callers : List Frame) (o : Nat) : Machine :=
  { m with frames := { f with ip := o } :: callers }

/-- A call of code `c` at an offset reads `n` bytes, and finds a value in them. -/
def Finds (c : Chunk Constant) (o : Nat) (act : Action α) (n : Nat) (a : α) : Prop :=
  ∀ (m : Machine) (f : Frame) (callers : List Frame), f.closure.prototype.chunk = c →
    act (m.standing f callers o) = .ok a (m.standing f callers (o + n))

namespace Finds

lemma pure (c : Chunk Constant) (o : Nat) (a : α) : Finds c o (pure a) 0 a := fun _ _ _ _ => rfl

lemma bind {act : Action α} {next : α → Action β} {a : α} {b : β} {all : Nat}
    (first : Finds c o act n a) (second : Finds c (o + n) (next a) n' b) (total : n + n' = all) :
    Finds c o (act >>= next) all b := by
  intro m f callers code
  rw [bind_apply, first m f callers code]
  dsimp only
  rw [second m f callers code, Nat.add_assoc, total]

/-- What is read may be put together. -/
lemma map {act : Action α} {a : α} (first : Finds c o act n a) (g : α → β) :
    Finds c o (do return g (← act)) n (g a) :=
  first.bind (pure c (o + n) (g a)) rfl

lemma byte (bound : o < c.size) : Finds c o readByte 1 (c.byteAt o) := by
  intro m f callers code
  have there : c.code[o]? = some (c.byteAt o) := by
    rw [Chunk.byteAt, Array.getD_eq_getD_getElem?, Array.getElem?_eq_getElem bound]
    rfl
  subst code
  simp only [readByte, standing, there]

lemma word (bound : o + 2 ≤ c.size) : Finds c o readWord 2 (c.wordAt o) := by
  have high : o < c.size := Nat.lt_of_succ_lt bound
  have low : o + 1 < c.size := bound
  exact (byte high).bind ((byte low).map _) rfl

lemma captures (count : Nat) (bound : o + 2 * count ≤ c.size) :
    Finds c o (readCaptures count) (2 * count) (c.capturesAt count o) := by
  induction count generalizing o with
  | zero => exact pure c o []
  | succ count ih =>
    have direct : o < c.size := by omega
    have index : o + 1 < c.size := by omega
    have rest := ih (o := o + 1 + 1) (by omega)
    exact (byte direct).bind ((byte index).bind (rest.map _) rfl) (by omega)

/-- The captures of a closure are as many as the function in the pool asks for. -/
lemma closure {index : UInt8} {p : Prototype} (bound : o + 1 + 2 * p.captureCount ≤ c.size)
    (first : c.byteAt o = index) (entry : c.constants[index.toNat]? = some (.prototype p)) :
    Finds c o readClosure (1 + 2 * p.captureCount)
      (.closure index (c.capturesAt p.captureCount (o + 1))) := by
  subst first
  have there : o < c.size := by omega
  refine (byte there).bind ?_ rfl
  have known : Finds c (o + 1) (constant (c.byteAt o)) 0 (.prototype p) := by
    intro m f callers code
    subst code
    rw [constant, bind_apply]
    simp only [frame, standing, entry]
    rfl
  exact known.bind ((captures p.captureCount bound).map _) (Nat.zero_add _)

/-- The operands of an instruction are found after its opcode. -/
lemma operands {op : Opcode} (opcode : Opcode.ofByte? (c.byteAt o) = some op)
    (decoded : c.instrAt? o = some i) (bound : o + i.size ≤ c.size)
    (whole : ∀ index captures, i = .closure index captures →
      ∃ p, c.constants[index.toNat]? = some (.prototype p)) :
    Finds c (o + 1) (readOperands op) (i.size - 1) i := by
  unfold Chunk.instrAt? at decoded
  simp only [opcode, Option.some.injEq] at decoded
  cases op with
  | constant | getLocal | setLocal | getGlobal | defineGlobal | setGlobal | getUpvalue | setUpvalue
  | getProperty | setProperty | getSuper | call | makeClass | method =>
    subst decoded
    exact (byte bound).map _
  | jump | jumpIfFalse | loop =>
    subst decoded
    exact (word bound).map _
  | invoke | superInvoke =>
    subst decoded
    have first : o + 1 < c.size := Nat.lt_of_succ_lt bound
    exact (byte first).bind ((byte bound).map _) rfl
  | closure =>
    subst decoded
    obtain ⟨p, entry⟩ := whole _ _ rfl
    have count : c.captureCountAt (c.byteAt (o + 1)) = p.captureCount := by
      rw [Chunk.captureCountAt, entry]
      rfl
    rw [count] at bound ⊢
    rw [Instr.size, Chunk.length_capturesAt] at bound ⊢
    have found := closure (c := c) (o := o + 1) (p := p) (by omega) rfl entry
    rwa [show 2 + 2 * p.captureCount - 1 = 1 + 2 * p.captureCount from by omega]
  | _ =>
    subst decoded
    exact pure c (o + 1) _

/-- An instruction of which no byte is missing is read as it is decoded. -/
lemma instr (decoded : c.instrAt? o = some i) (bound : o + i.size ≤ c.size)
    (whole : ∀ index captures, i = .closure index captures →
      ∃ p, c.constants[index.toNat]? = some (.prototype p)) :
    Finds c o readInstr i.size i := by
  have pos := i.size_pos
  have there : o < c.size := by omega
  obtain ⟨op, opcode⟩ : ∃ op, Opcode.ofByte? (c.byteAt o) = some op := by
    unfold Chunk.instrAt? at decoded
    split at decoded
    · cases decoded
    · exact ⟨_, by assumption⟩
  refine (byte there).bind ?_ (Nat.add_sub_cancel' pos)
  rw [opcode]
  exact operands opcode decoded bound whole

end Finds

end Machine

/-! ## Agreement -/

/-- Does the instruction lead elsewhere than to the next one? -/
def Instr.Jumps : Instr → Prop
  | .jump _ | .jumpIfFalse _ | .loop _ => True
  | _ => False

/-- Does the jump lead to a target, from the offset after it? -/
def Instr.LeadsTo (next target : Nat) : Instr → Prop
  | .jump distance | .jumpIfFalse distance => next + distance.toNat = target
  | .loop distance => target + distance.toNat = next
  | _ => False

/-- Does the machine go where the jump leads to? -/
def Instr.Taken (m : Machine) : Instr → Prop
  | .jump _ | .loop _ => True
  | .jumpIfFalse _ => ∃ v, m.stack.back? = some v ∧ v.isFalsey = true
  | _ => False

/-- The code of a function is listed as the machine reads it: a row for each instruction, which ends
where the machine has read it, and tells where a jump leads. -/
structure ReadsAsListed (p : Prototype) (code : List (Nat × Instr)) : Prop where
  splits : Splits p.chunk 0 code
  reads : ∀ {o i}, (o, i) ∈ code → ∀ {m : Machine} {f : Frame} {callers : List Frame},
    m.frames = f :: callers → f.closure.prototype = p → f.ip = o →
      m.readInstr = .ok i (m.standing f callers (p.chunk.listInstr o).2) ∧
        m.fetch = .ok i (m.standing f callers (p.chunk.listInstr o).2)
  jumps : ∀ {o i}, (o, i) ∈ code → i.Jumps → ∃ target : Nat,
    (p.chunk.listInstr o).1 =
      p.chunk.listPlace o ++ (i.opcode.column ++ column4 o ++ " -> " ++ toString target) ∧
    ∀ {m : Machine} {f : Frame} {callers : List Frame}, m.frames = f :: callers →
      f.closure.prototype = p → f.ip = o → i.Taken m →
        m.step = .ok () (m.standing f callers target)
  listed : p.listing = "== " ++ p.display ++ " ==\n" ++
    String.join (code.map fun entry =>
      p.chunk.listPlace entry.1 ++ p.chunk.listOperation entry.1 entry.2 ++ "\n")

namespace Machine

lemma frame_apply (frames : m.frames = f :: callers) : frame m = .ok f m := by
  rw [frame, frames]

lemma goto_apply (frames : m.frames = f :: callers) (o : Nat) :
    goto o m = .ok () (m.standing f callers o) := by
  rw [goto, frames]
  rfl

/-- A jump that is taken goes on where it leads to. -/
lemma exec_taken (frames : m.frames = f :: callers) {target : Nat} (leads : i.LeadsTo f.ip target)
    (taken : i.Taken m) : exec i m = .ok () (m.standing f callers target) := by
  cases i with
  | jump distance =>
    rw [exec, bind_apply, frame_apply frames]
    dsimp only
    rw [show f.ip + distance.toNat = target from leads]
    exact goto_apply frames target
  | jumpIfFalse distance =>
    obtain ⟨v, top, falsey⟩ := taken
    have looks : peek 0 m = .ok v m := by
      obtain ⟨nonempty, there⟩ := Array.getElem?_eq_some_iff.1 (Array.back?_eq_getElem?.symm.trans top)
      rw [peek, dif_pos (Nat.pos_of_ne_zero fun empty => by omega)]
      exact congrArg (EStateM.Result.ok · m) there
    rw [exec, bind_apply, looks]
    dsimp only
    rw [if_pos falsey, bind_apply, frame_apply frames]
    dsimp only
    rw [show f.ip + distance.toNat = target from leads]
    exact goto_apply frames target
  | loop distance =>
    have back : target + distance.toNat = f.ip := leads
    rw [exec, bind_apply, frame_apply frames]
    dsimp only
    rw [if_pos (by omega), show f.ip - distance.toNat = target from by omega]
    exact goto_apply frames target
  | _ => cases taken

end Machine

open Machine Compile

/-- The listing of a jump tells where it leads to. -/
lemma listOperation_jump {p : Prototype} {starts : Nat → Prop} {o : Nat} {i : Instr} (jumps : i.Jumps)
    (fits : OperandsFit p starts o i) : ∃ target : Nat, i.LeadsTo (o + i.size) target ∧
      p.chunk.listOperation o i = i.opcode.column ++ column4 o ++ " -> " ++ toString target := by
  cases i with
  | jump distance | jumpIfFalse distance => exact ⟨o + 3 + distance.toNat, rfl, rfl⟩
  | loop distance =>
    obtain ⟨target, back, -⟩ := fits
    refine ⟨target, back, ?_⟩
    have same : (o : Int) + 3 - distance.toNat = target := by omega
    rw [Chunk.listOperation, same]
    rfl
  | _ => cases jumps

/-- The code of a function whose operands fit is listed as the machine reads it. -/
theorem Splits.readsAsListed {p : Prototype} {code : List (Nat × Instr)} (splits : Splits p.chunk 0 code)
    (fit : ∀ entry ∈ code, OperandsFit p (fun target => ∃ i, (target, i) ∈ code) entry.1 entry.2) :
    ReadsAsListed p code := by
  have row : ∀ {o i}, (o, i) ∈ code → p.chunk.listInstr o =
      (p.chunk.listPlace o ++ p.chunk.listOperation o i, o + i.size) := by
    intro o i there
    rw [Chunk.listInstr, (splits.decoded there).1]
  have reads : ∀ {o i}, (o, i) ∈ code → ∀ {m : Machine} {f : Frame} {callers : List Frame},
      m.frames = f :: callers → f.closure.prototype = p → f.ip = o →
        m.readInstr = .ok i (m.standing f callers (p.chunk.listInstr o).2) ∧
          m.fetch = .ok i (m.standing f callers (p.chunk.listInstr o).2) := by
    intro o i there m f callers frames rfl rfl
    obtain ⟨decoded, bound⟩ := splits.decoded there
    have here : m.standing f callers f.ip = m := by rw [standing, ← frames]
    have found := Finds.instr decoded bound fun index captures closure => by
      have fits := fit _ there
      dsimp only at fits
      rw [closure] at fits
      obtain ⟨q, entry, -⟩ := fits
      exact ⟨q, entry⟩
    rw [row there]
    refine ⟨?_, fetch_apply frames decoded bound⟩
    rw [← found m f callers rfl, here]
  refine ⟨splits, reads, ?_, ?_⟩
  · intro o i there jumps
    obtain ⟨target, leads, text⟩ := listOperation_jump jumps (fit _ there)
    refine ⟨target, by rw [row there, text], ?_⟩
    intro m f callers frames rfl rfl taken
    rw [step, bind_apply, (reads there frames rfl rfl).2, row there]
    have still : i.Taken (m.standing f callers (f.ip + i.size)) := by
      cases i <;> exact taken
    exact exec_taken (f := { f with ip := f.ip + i.size }) rfl leads still
  · rw [PrototypeOf.listing, splits.lists.listing, Chunk.rowsText, List.map_map]
    refine congrArg (_ ++ String.join ·) (List.map_congr_left fun entry there => ?_)
    rw [Function.comp_apply, row there]

/-- For every function in a source that compiles, the listing and the machine agree about where each
instruction ends and where each jump leads, so that there is one row for each instruction, in order.
The listing of any chunk comes to an end, and each row starts inside the code. -/
theorem listings_agree :
    (∀ {source : String} {strings : StringTable} {serial : Nat} {p q : Prototype},
      (compile source strings serial).outcome = .ok p → Contains p q → ∃ code, ReadsAsListed q code) ∧
    ∀ {α : Type} [PoolEntry α] (c : Chunk α), ∃ rows, c.Lists 0 rows ∧ rows.Pairwise (· < ·) ∧
      (∀ o ∈ rows, o < c.size) ∧ ∀ title,
        c.listing title = "== " ++ title ++ " ==\n" ++ c.rowsText rows := by
  constructor
  · intro source strings serial p q compiles inside
    obtain ⟨code, splits, -, fit⟩ := (compile_wellFormed compiles inside).code
    exact ⟨code, splits.readsAsListed fit⟩
  · intro α _ c
    obtain ⟨rows, lists, -⟩ := c.exists_lists 0
    exact ⟨rows, lists, lists.sorted, lists.inside, lists.listing⟩

/-- A loop, a function with a captured variable and a conditional. -/
theorem listings_agree_closure :
    ∃ p, (compile "fun f(a) \x7b fun g() \x7b return a; \x7d while (a) if (g()) print a; \x7d" .empty
        0).outcome = .ok p ∧ ∀ q, Contains p q → ∃ code, ReadsAsListed q code := by
  generalize result : (compile _ _ _).outcome = outcome
  have compiles : outcome.toOption.isSome = true := by
    rw [← result]
    decide +kernel
  cases outcome with
  | error _ => cases compiles
  | ok p => exact ⟨p, rfl, fun q inside => listings_agree.1 result inside⟩

/-- An operation that has lost its operand, and a byte that is no opcode before it. -/
example : (⟨#[255, 0], #[7], #[]⟩ : Chunk Constant).listing "broken" =
    "== broken ==\n0000    7 Unknown opcode 255\n0001    0 Constant            0 ''\n" := by
  decide +kernel

end Lox
