import Lox.Proofs.Machine.Frames

/-!
# The values of captured variables

The value of a captured variable is in its place on the stack as long as the cell is open, and then in
the cell itself (`valueOf?`).  A step changes it only by an assignment, be it of a closure that has
captured the variable or of the function whose local it still is (`Gives`); all that an instruction
takes off the stack are values that no cell refers to, and when a cell is closed it takes over the value
that is still in its place.  A cell is closed exactly when the place is discarded (`Discards`).
-/

namespace Lox

/-- The values that an instruction takes off are of places that no cell refers to, unless it is there to
close a cell. -/
lemma Exec.unshared {T : Surroundings} {σ τ : Shape} {i : Instr} (exec : Exec T i σ τ)
    (other : i ≠ .closeUpvalue) {d : Nat} (taken : d < i.pops) :
    ∃ k, σ.slots[d]? = some ⟨k, false⟩ := by
  have top : ∀ {k slots}, d < 1 → ∃ k', ((⟨k, false⟩ : Slot) :: slots)[d]? = some ⟨k', false⟩ := by
    intro k slots first
    obtain rfl : d = 0 := by omega
    exact ⟨k, rfl⟩
  have two : ∀ {k k' slots}, d < 2 →
      ∃ l, ((⟨k, false⟩ : Slot) :: ⟨k', false⟩ :: slots)[d]? = some ⟨l, false⟩ := by
    intro k k' slots bound
    rcases (show d = 0 ∨ d = 1 by omega) with rfl | rfl
    · exact ⟨k, rfl⟩
    · exact ⟨k', rfl⟩
  have arguments : ∀ {args slots : List Slot} {e : Nat}, Unshared args → e < args.length →
      ∃ k, (args ++ slots)[e]? = some ⟨k, false⟩ := by
    intro args slots e unshared inside
    rw [List.getElem?_append_left inside, List.getElem?_eq_getElem inside]
    exact ⟨_, congrArg some (congrArg (Slot.mk _) (unshared _ (List.getElem_mem inside)))⟩
  cases exec with
  | literal kind => cases kind <;> exact absurd taken (Nat.not_lt_zero d)
  | unary kind => cases kind <;> exact top taken
  | binary kind => cases kind <;> exact two taken
  | pop | defineGlobal | getProperty | print | inherit | method => exact top taken
  | setProperty | getSuper => exact two taken
  | call length unshared => exact arguments unshared (Nat.lt_of_lt_of_eq taken length.symm)
  | invoke _ length unshared => exact arguments unshared (Nat.lt_of_lt_of_eq taken length.symm)
  | superInvoke _ length unshared =>
    cases d with
    | zero => exact ⟨_, rfl⟩
    | succ d => exact arguments unshared (Nat.lt_of_lt_of_eq (Nat.lt_of_succ_lt_succ taken) length.symm)
  | closeUpvalue => exact absurd rfl other
  | _ => exact absurd taken (Nat.not_lt_zero d)

lemma Flows.unshared {T : Surroundings} {E : Shapes} {next : Nat} {σ : Shape} {i : Instr}
    (flows : Flows T E next σ i) (other : i ≠ .closeUpvalue) {d : Nat} (taken : d < i.pops) :
    ∃ k, σ.slots[d]? = some ⟨k, false⟩ := by
  cases i with
  | jump | loop | jumpIfFalse => exact absurd taken (Nat.not_lt_zero d)
  | ret =>
    obtain ⟨k, slots, shape⟩ := flows
    obtain rfl : d = 0 := Nat.lt_one_iff.1 taken
    rw [shape]
    exact ⟨k, rfl⟩
  | _ =>
    obtain ⟨τ, execs, -⟩ := flows
    exact execs.unshared other taken

end Lox

namespace Lox.Machine

variable {α β : Type} {m m' m'' : Machine} {bare : Prop}

/-! ## Values -/

/-- The value of the variable in a cell. -/
def valueOf? (m : Machine) (cell : Nat) : Option Value :=
  match m.cells[cell]? with
  | none => none
  | some (.opened slot) => m.stack[slot]?
  | some (.closed v) => some v

lemma valueOf?_opened {cell slot : Nat} (opened : m.cells[cell]? = some (.opened slot)) :
    m.valueOf? cell = m.stack[slot]? := by
  rw [valueOf?, opened]

lemma valueOf?_closed {cell : Nat} {v : Value} (closed : m.cells[cell]? = some (.closed v)) :
    m.valueOf? cell = some v := by
  rw [valueOf?, closed]

/-- A closure that reads a captured variable gets its value. -/
lemma readCell_of_valueOf? {cell : Nat} {v : Value} (value : m.valueOf? cell = some v) :
    readCell cell m = .ok v m := by
  cases there : m.cells[cell]? with
  | none =>
    rw [valueOf?, there] at value
    exact nomatch value
  | some c =>
    cases c with
    | opened slot =>
      rw [valueOf?_opened there] at value
      rw [readCell_apply, there]
      dsimp only
      rw [readSlot, value]
    | closed w =>
      rw [valueOf?_closed there] at value
      rw [readCell_apply, there, Option.some.inj value]

/-- An assignment to a place changes the value of the variable in its cell, if it has one. -/
lemma valueOf?_write {cell slot : Nat} {v : Value} (cells : m'.cells = m.cells)
    (written : m'.stack = m.stack.setIfInBounds slot v) (bound : slot < m.stack.size)
    (opened : m.cells[cell]? = some (.opened slot)) : m'.valueOf? cell = some v := by
  rw [valueOf?_opened (cells ▸ opened), written]
  exact Array.getElem?_setIfInBounds_self_of_lt bound

/-- An assignment to a place changes the value of no other variable. -/
lemma valueOf?_write_other {cell slot : Nat} {v : Value} (cells : m'.cells = m.cells)
    (written : m'.stack = m.stack.setIfInBounds slot v)
    (other : m.cells[cell]? ≠ some (.opened slot)) : m'.valueOf? cell = m.valueOf? cell := by
  unfold valueOf?
  rw [cells, written]
  split
  · rfl
  · next slot' opened =>
    refine Array.getElem?_setIfInBounds_ne ?_
    rintro rfl
    exact other opened
  · rfl

/-! ## Closing -/

/-- The cells of places from `last` on are closed, each with the value in its place; the others are as
before, and those that are open are listed in the same order. -/
structure Closes (last : Nat) (m m' : Machine) : Prop where
  size : m'.cells.size = m.cells.size
  closes : ∀ {i slot : Nat}, m.cells[i]? = some (.opened slot) → last ≤ slot →
    ∃ v, m.stack[slot]? = some v ∧ m'.cells[i]? = some (.closed v)
  stays : ∀ {i slot : Nat}, m.cells[i]? = some (.opened slot) → slot < last →
    m'.cells[i]? = some (.opened slot)
  closed : ∀ {i : Nat} {v}, m.cells[i]? = some (.closed v) → m'.cells[i]? = some (.closed v)
  listed : m'.openCells = m.openCells.filter fun i => (m.slotOf i).any (· < last)

/-- Closing the cells that are parted off closes those of places from `last` on. -/
lemma closes_of_parts (ordered : m.Ordered) {last : Nat} {closing : List (Nat × Value)}
    (parts : m.partCells last m.openCells = some (closing, m'.openCells))
    (cells : m'.cells = closeAll closing m.cells) : Closes last m m' := by
  obtain ⟨split, closes, -⟩ := partCells_spec parts
  obtain ⟨ordered', below⟩ := close_ordered ordered rfl parts cells
  have apart : ∀ {i slot : Nat}, m.slotOf i = some slot → slot < last → i ∉ closing.map Prod.fst := by
    intro i slot place lower there
    obtain ⟨⟨j, v⟩, among, rfl⟩ := List.mem_map.1 there
    obtain ⟨slot', place', higher, -⟩ := closes _ _ among
    obtain rfl := Option.some.inj (place.symm.trans place')
    exact absurd lower (Nat.not_lt_of_le higher)
  have shut : ∀ {i slot : Nat}, m.cells[i]? = some (.opened slot) → last ≤ slot →
      ∃ v, m.stack[slot]? = some v ∧ m'.cells[i]? = some (.closed v) := by
    intro i slot opened higher
    have place := slotOf_eq_some.2 opened
    by_cases there : i ∈ closing.map Prod.fst
    · obtain ⟨v, among, closed⟩ := closeAll_closes there (Array.getElem?_eq_some_iff.1 opened).1
      obtain ⟨slot', place', -, value⟩ := closes _ _ among
      obtain rfl := Option.some.inj (place.symm.trans place')
      exact ⟨v, value, by rw [cells]; exact closed⟩
    · have still : m'.slotOf i = some slot := by
        rw [slotOf_eq_some, cells, closeAll_other there, opened]
      exact absurd (below i slot still) (Nat.not_lt_of_le higher)
  refine ⟨by rw [cells, size_closeAll], shut, fun {i slot} opened lower => ?_, fun {i v} closed => ?_, ?_⟩
  · rw [cells, closeAll_other (apart (slotOf_eq_some.2 opened) lower), opened]
  · have other : i ∉ closing.map Prod.fst := by
      intro there
      obtain ⟨⟨j, w⟩, among, rfl⟩ := List.mem_map.1 there
      obtain ⟨slot, place, -⟩ := closes _ _ among
      exact nomatch closed.symm.trans (slotOf_eq_some.1 place)
    rw [cells, closeAll_other other, closed]
  · rw [split, List.filter_append, List.filter_eq_nil_iff.2, List.filter_eq_self.2, List.nil_append]
    · intro i there
      obtain ⟨slot, place⟩ := (ordered'.opened i).1 there
      obtain ⟨slot', place'⟩ := (ordered.opened i).1 (split ▸ List.mem_append_right _ there)
      by_cases higher : last ≤ slot'
      · obtain ⟨v, -, closed⟩ := shut (slotOf_eq_some.1 place') higher
        exact nomatch closed.symm.trans (slotOf_eq_some.1 place)
      · rw [place']
        exact decide_eq_true (Nat.lt_of_not_le higher)
    · intro i there
      obtain ⟨⟨j, v⟩, among, rfl⟩ := List.mem_map.1 there
      obtain ⟨slot, place, higher, -⟩ := closes _ _ among
      rw [place]
      simpa using higher

/-- Closing cells leaves the values of all captured variables as they are, if nothing happens to the
stack below. -/
lemma Closes.valueOf? {last : Nat} (closes : Closes last m m') (below : KeepsBelow last m m') (cell : Nat) :
    m'.valueOf? cell = m.valueOf? cell := by
  cases there : m.cells[cell]? with
  | none =>
    have beyond : m'.cells[cell]? = none := by
      rw [Array.getElem?_eq_none_iff, closes.size]
      exact Array.getElem?_eq_none_iff.1 there
    rw [Machine.valueOf?, Machine.valueOf?, there, beyond]
  | some content =>
    cases content with
    | opened slot =>
      rw [valueOf?_opened there]
      by_cases higher : last ≤ slot
      · obtain ⟨v, value, closed⟩ := closes.closes there higher
        rw [valueOf?_closed closed, value]
      · have lower := Nat.lt_of_not_le higher
        rw [valueOf?_opened (closes.stays there lower), below slot lower]
    | closed v => rw [valueOf?_closed there, valueOf?_closed (closes.closed there)]

/-! ## Actions that keep cells -/

/-- If the action goes on, the cells that there were are as before. -/
class KeepsCells (act : Action α) : Prop where
  kept : ∀ {m a m'}, act m = .ok a m' → ∀ i < m.cells.size, m'.cells[i]? = m.cells[i]?

section KeepsCells

variable {act : Action α} {f : α → Action β}

lemma keepsCells_of_same (same : ∀ {m a m'}, act m = .ok a m' → m'.cells = m.cells) : KeepsCells act :=
  ⟨fun result _ _ => by rw [same result]⟩

instance (priority := low) [looks : Inspecting act] : KeepsCells act :=
  keepsCells_of_same fun result => by rw [looks.same result]

lemma keepsCells_bind (first : KeepsCells act) (second : ∀ a, KeepsCells (f a)) :
    KeepsCells (act >>= f) := by
  refine ⟨fun {m b m''} result i bound => ?_⟩
  obtain ⟨a, m', here, there⟩ := bind_ok result
  have old := first.kept here i bound
  have bound' : i < m'.cells.size := by
    rw [Array.getElem?_eq_getElem bound] at old
    exact (Array.getElem?_eq_some_iff.1 old).1
  rw [(second a).kept there i bound', old]

instance [first : KeepsCells act] [second : ∀ a, KeepsCells (f a)] : KeepsCells (act >>= f) :=
  keepsCells_bind first second

instance (c : Prop) [Decidable c] (x y : Action α) [KeepsCells x] [KeepsCells y] :
    KeepsCells (if c then x else y) := by
  split <;> infer_instance

lemma keepsCells_modifyGet {f : Machine → α × Machine} (same : ∀ m, (f m).2.cells = m.cells) :
    KeepsCells (modifyGet f : Action α) :=
  keepsCells_of_same fun {m _ _} result => by
    obtain ⟨-, rfl⟩ := EStateM.Result.ok.inj result
    exact same m

lemma keepsCells_modify {f : Machine → Machine} (same : ∀ m, (f m).cells = m.cells) :
    KeepsCells (modify f : Action Unit) :=
  keepsCells_modifyGet same

end KeepsCells

/-! ### Single actions -/

section Actions

instance (v : Value) : KeepsCells (push v) :=
  keepsCells_of_same fun result => by
    obtain ⟨-, rfl⟩ := EStateM.Result.ok.inj result
    rfl

instance : KeepsCells pop := by
  refine keepsCells_of_same fun result => ?_
  unfold pop at result
  split at result
  · obtain ⟨-, rfl⟩ := EStateM.Result.ok.inj result
    rfl
  · exact nomatch result

instance (distance : Nat) (v : Value) : KeepsCells (replace distance v) := by
  refine keepsCells_of_same fun result => ?_
  unfold replace at result
  split at result
  · obtain ⟨-, rfl⟩ := EStateM.Result.ok.inj result
    rfl
  · exact nomatch result

instance (slot : Nat) (v : Value) : KeepsCells (writeSlot slot v) := by
  refine keepsCells_of_same fun result => ?_
  unfold writeSlot at result
  split at result
  · obtain ⟨-, rfl⟩ := EStateM.Result.ok.inj result
    rfl
  · exact nomatch result

instance (size : Nat) : KeepsCells (cutStack size) :=
  keepsCells_of_same fun result => by
    obtain ⟨-, rfl⟩ := EStateM.Result.ok.inj result
    rfl

instance (b : Blueprint) : KeepsCells (make b) :=
  keepsCells_of_same fun result => by
    obtain ⟨-, rfl⟩ := EStateM.Result.ok.inj result
    cases b <;> rfl

instance (ip : Nat) : KeepsCells (goto ip) := by
  refine keepsCells_of_same fun result => ?_
  unfold goto at result
  split at result
  · obtain ⟨-, rfl⟩ := EStateM.Result.ok.inj result
    rfl
  · exact nomatch result

instance (c : ClassRef) (f : Table Closure → Table Closure) : KeepsCells (modifyMethods c f) := by
  refine keepsCells_of_same fun result => ?_
  unfold modifyMethods at result
  split at result
  · obtain ⟨-, rfl⟩ := EStateM.Result.ok.inj result
    rfl
  · exact nomatch result

instance (serial : Nat) (name : String) (v : Value) : KeepsCells (setField serial name v) := by
  refine keepsCells_of_same fun result => ?_
  unfold setField at result
  split at result
  · obtain ⟨-, rfl⟩ := EStateM.Result.ok.inj result
    rfl
  · exact nomatch result

instance (slot : Nat) : KeepsCells (captureSlot slot) := by
  refine ⟨fun result i bound => ?_⟩
  unfold captureSlot at result
  dsimp only at result
  split at result <;> obtain ⟨-, rfl⟩ := EStateM.Result.ok.inj result
  · exact Array.getElem?_push_lt bound ▸ (Array.getElem?_eq_getElem bound).symm
  · rfl

instance (closure : Closure) (count : UInt8) : KeepsCells (call closure count) := by
  refine keepsCells_of_same fun result => ?_
  unfold call at result
  dsimp only at result
  split at result
  · exact nomatch result
  · split at result
    · exact nomatch result
    · split at result
      · obtain ⟨-, rfl⟩ := EStateM.Result.ok.inj result
        rfl
      · exact nomatch result

instance : KeepsCells popClass := by
  unfold popClass
  refine keepsCells_bind inferInstance fun v => ?_
  split <;> infer_instance

instance (captures : List Capture) (found : Array Nat) : KeepsCells (captureAll captures found) := by
  induction captures generalizing found with
  | nil => exact inferInstanceAs (KeepsCells (pure found))
  | cons capture captures ih =>
    rw [captureAll]
    infer_instance

end Actions

/-! ### Instructions -/

section Instructions

instance (function : Nat) (arguments : Array Value) (answer? : Option Value) :
    KeepsCells (modify (·.remember function arguments answer?) : Action Unit) :=
  keepsCells_modify fun _ => rfl

instance (f : NativeRef) (count : UInt8) : KeepsCells (callNative f count) := by
  unfold callNative
  split
  · infer_instance
  · refine keepsCells_bind inferInstance fun m => keepsCells_bind inferInstance fun body => ?_
    dsimp only
    split <;> infer_instance

instance (c : ClassRef) (count : UInt8) : KeepsCells (construct c count) := by
  unfold construct
  refine keepsCells_bind (keepsCells_modifyGet fun m => rfl) fun v =>
    keepsCells_bind inferInstance fun _ => keepsCells_bind inferInstance fun methods => ?_
  split <;> infer_instance

instance (callee : Value) (count : UInt8) : KeepsCells (callValue callee count) := by
  unfold callValue
  split <;> infer_instance

instance (c : ClassRef) (name : String) (count : UInt8) : KeepsCells (invokeFromClass c name count) := by
  unfold invokeFromClass
  infer_instance

instance (name : String) (count : UInt8) : KeepsCells (invoke name count) := by
  unfold invoke
  refine keepsCells_bind inferInstance fun v => ?_
  split
  · refine keepsCells_bind inferInstance fun field => ?_
    split <;> infer_instance
  · infer_instance

instance (c : ClassRef) (name : String) : KeepsCells (bindMethod c name) := by
  unfold bindMethod
  exact keepsCells_bind inferInstance fun closure => keepsCells_bind inferInstance fun receiver =>
    keepsCells_bind (keepsCells_modifyGet fun m => rfl) fun v => inferInstance

instance (f : Float → Float → Value) : KeepsCells (numeric f) := by
  unfold numeric
  refine keepsCells_bind inferInstance fun a => keepsCells_bind inferInstance fun b => ?_
  split <;> infer_instance

instance : KeepsCells add := by
  unfold add
  refine keepsCells_bind inferInstance fun a => keepsCells_bind inferInstance fun b => ?_
  split
  · infer_instance
  · exact keepsCells_bind (keepsCells_modifyGet fun m => rfl) fun v => inferInstance
  · infer_instance

instance : KeepsCells negate := by
  unfold negate
  refine keepsCells_bind inferInstance fun a => ?_
  split <;> infer_instance

instance (name : String) : KeepsCells (readGlobal name) := by
  unfold readGlobal
  refine keepsCells_bind inferInstance fun m => ?_
  split <;> infer_instance

instance (name : String) : KeepsCells (defineGlobal name) := by
  unfold defineGlobal
  exact keepsCells_bind inferInstance fun v => keepsCells_modify fun m => rfl

instance (name : String) : KeepsCells (writeGlobal name) := by
  unfold writeGlobal
  refine keepsCells_bind inferInstance fun m => ?_
  split
  · exact keepsCells_bind inferInstance fun v => keepsCells_modify fun m => rfl
  · infer_instance

instance (error : RuntimeError) : KeepsCells (failUnread error : Action α) := by
  unfold failUnread
  infer_instance

instance (index : UInt8) : KeepsCells (readProperty index) := by
  unfold readProperty
  refine keepsCells_bind inferInstance fun v => ?_
  split
  · refine keepsCells_bind inferInstance fun name => keepsCells_bind inferInstance fun field => ?_
    split <;> infer_instance
  · infer_instance

instance (index : UInt8) : KeepsCells (writeProperty index) := by
  unfold writeProperty
  refine keepsCells_bind inferInstance fun v => ?_
  split <;> infer_instance

instance (index : UInt8) (captures : List Capture) : KeepsCells (pushClosure index captures) := by
  unfold pushClosure
  refine keepsCells_bind inferInstance fun c => ?_
  split
  · exact keepsCells_bind inferInstance fun captured =>
      keepsCells_bind (keepsCells_modifyGet fun m => rfl) fun closure => inferInstance
  · infer_instance

instance (index : UInt8) : KeepsCells (pushClass index) := by
  unfold pushClass
  exact keepsCells_bind inferInstance fun name =>
    keepsCells_bind (keepsCells_modifyGet fun m => rfl) fun c => inferInstance

instance : KeepsCells inherit := by
  unfold inherit
  refine keepsCells_bind inferInstance fun v => ?_
  split <;> infer_instance

instance (index : UInt8) : KeepsCells (addMethod index) := by
  unfold addMethod
  refine keepsCells_bind inferInstance fun name => keepsCells_bind inferInstance fun v => ?_
  split
  · refine keepsCells_bind inferInstance fun v => ?_
    split <;> infer_instance
  · infer_instance

end Instructions

end Lox.Machine

namespace Lox

/-- The instruction assigns to no captured variable and closes no cell. -/
def Instr.KeepsCells : Instr → Prop
  | .setUpvalue _ | .closeUpvalue | .ret => False
  | _ => True

end Lox

namespace Lox.Machine

variable {m m' : Machine} {bare : Prop}

lemma exec_keepsCells {i : Instr} (keeps : i.KeepsCells) : KeepsCells (exec i) := by
  cases i with
  | setUpvalue | closeUpvalue | ret => exact keeps.elim
  | print => exact keepsCells_bind inferInstance fun v => keepsCells_modify fun m => rfl
  | _ =>
    rw [exec]
    infer_instance

/-! ## Steps -/

/-- The next step is an assignment, by a closure that has captured it, to the variable in a cell. -/
def Sets (m : Machine) (cell : Nat) (v : Value) : Prop :=
  m.stack.back? = some v ∧ ∃ f callers index, m.frames = f :: callers ∧
    f.closure.prototype.chunk.instrAt? f.ip = some (.setUpvalue index) ∧
    f.closure.captured[index.toNat]? = some cell

/-- The next step gives the variable in a cell a value: a closure that has captured it assigns to it, or
else the function whose local it is. -/
def Gives (m : Machine) (cell : Nat) (v : Value) : Prop :=
  m.Sets cell v ∨ m.stack.back? = some v ∧ ∃ f callers index, m.frames = f :: callers ∧
    f.closure.prototype.chunk.instrAt? f.ip = some (.setLocal index) ∧
    m.cells[cell]? = some (.opened (f.base + index.toNat))

/-- Only a closure that has captured it can assign to the variable in a closed cell. -/
lemma Gives.sets {cell : Nat} {v w : Value} (gives : m.Gives cell v)
    (closed : m.cells[cell]? = some (.closed w)) : m.Sets cell v := by
  rcases gives with sets | ⟨-, f, callers, index, -, -, opened⟩
  · exact sets
  · exact nomatch closed.symm.trans opened

/-- The next step takes a place away: it closes the cell of the place on top of the stack, or leaves a call
whose places start there or below. -/
def Discards (m : Machine) (slot : Nat) : Prop :=
  ∃ f callers, m.frames = f :: callers ∧
    (f.closure.prototype.chunk.instrAt? f.ip = some .closeUpvalue ∧ m.stack.size = slot + 1 ∨
      f.closure.prototype.chunk.instrAt? f.ip = some .ret ∧ f.base ≤ slot)

section Step

variable {c : Census} {T : Surroundings} {E : Shapes} {f : Frame} {callers : List Frame}
  {below : List Slot} {σ : Shape} {i : Instr} {a : Unit} {cell slot : Nat} {v : Value}

/-- The place of an open cell is on the stack. -/
lemma Active.open_lt (h : Active bare c T E f callers below σ m)
    (opened : m.cells[cell]? = some (.opened slot)) : slot < m.stack.size := by
  obtain ⟨k, known⟩ := h.memory.cells.kind opened
  rw [← h.memory.stack.size]
  exact fromBottom?_lt (h.memory.cells.opened opened known)

/-- No instruction takes the place of an open cell off, unless it is there to close it. -/
lemma Active.open_below (h : Active bare c T E f callers below σ m) {next : Nat} (flows : Flows T E next σ i)
    (other : i ≠ .closeUpvalue) (opened : m.cells[cell]? = some (.opened slot)) :
    slot + i.pops < m.stack.size := by
  refine Nat.lt_of_not_le fun above => ?_
  have bound := h.open_lt opened
  obtain ⟨k, known⟩ := h.memory.cells.kind opened
  have shared := h.memory.cells.opened opened known
  have size := h.memory.stack.size
  obtain ⟨k', unshared⟩ := flows.unshared other (d := m.stack.size - 1 - slot) (by omega)
  have inside := (List.getElem?_eq_some_iff.1 unshared).1
  have place := fromBottom?_eq_getElem? (σ.slots ++ below) (d := m.stack.size - 1 - slot) (by omega)
  rw [size, show m.stack.size - 1 - (m.stack.size - 1 - slot) = slot by omega, shared,
    List.getElem?_append_left inside, unshared] at place
  cases place

/-- What an instruction does not take off stays where it is. -/
lemma exec_below (frames : m.frames = f :: callers) (kind : i.IsPlain ∨ ∃ taken, i.Calls taken)
    (result : exec i m = .ok a m')
    (lower : slot + i.pops < m.stack.size) : m'.stack[slot]? = m.stack[slot]? := by
  rcases kind with plain | ⟨taken, calls⟩
  · exact ((exec_pops plain).shallow result).2.2 slot lower
  · have same : i.pops = taken := by cases calls <;> rfl
    rw [same] at lower
    have place : m.stack.size - taken + taken = m.stack.size := by omega
    obtain ⟨callee, -, entered⟩ := exec_calls frames calls place result
    exact entered.kept slot (by omega)

/-- The end of a scope closes the cell of the place on top. -/
lemma closeUpvalue_closes (ordered : m.Ordered) (result : exec .closeUpvalue m = .ok a m') :
    Closes (m.stack.size - 1) m m' ∧ KeepsBelow (m.stack.size - 1) m m' := by
  obtain ⟨_, m₀, got, result⟩ := bind_ok result
  obtain ⟨rfl, rfl⟩ := EStateM.Result.ok.inj got
  obtain ⟨_, m₁, closed, result⟩ := bind_ok result
  obtain ⟨_, m₂, popped, result⟩ := bind_ok result
  obtain ⟨-, rfl⟩ := EStateM.Result.ok.inj result
  unfold closeCells at closed
  split at closed
  · next parts =>
    obtain ⟨-, rfl⟩ := EStateM.Result.ok.inj closed
    unfold pop at popped
    split at popped
    · obtain ⟨-, rfl⟩ := EStateM.Result.ok.inj popped
      refine ⟨closes_of_parts ordered parts rfl, fun slot lower => ?_⟩
      exact (Array.getElem?_pop ..).trans (if_pos (by omega))
    · cases popped
  · cases closed

/-- A return closes the cells of all places of the call. -/
lemma ret_closes (frames : m.frames = f :: callers) (top : m.stack.back? = some v) (ordered : m.Ordered)
    (sound : ∀ defect m', ret m ≠ .error (.broken defect) m') :
    Closes f.base m.leaving (left (ret m)) ∧
      (f.base ≤ m.stack.pop.size → KeepsBelow f.base m.leaving (left (ret m))) := by
  have ordered' : m.leaving.Ordered := ordered.of_same rfl rfl
  rw [ret_apply frames top] at sound ⊢
  have same : m.leaving.openCells = m.openCells := rfl
  rw [← same] at sound ⊢
  split
  · next parts =>
    rw [parts] at sound
    exact absurd rfl (sound _ _)
  · next closing openCells parts =>
    dsimp only
    split
    · refine ⟨closes_of_parts ordered' parts rfl, fun above slot lower => ?_⟩
      have inside : slot < (m.leaving.stack.shrink f.base).size := by
        rw [Array.size_shrink]
        exact Nat.lt_min.2 ⟨lower, lower.trans_le above⟩
      refine (Array.getElem?_eq_getElem inside).trans ?_
      rw [Array.getElem_shrink]
      exact (Array.getElem?_eq_getElem _).symm
    · exact ⟨closes_of_parts ordered' parts rfl, fun above slot lower => getElem?_shrink_push v lower above⟩

/-- A return that goes on has closed the cells of all places of the call. -/
lemma ret_ok_closes (frames : m.frames = f :: callers) (ordered : m.Ordered) (result : ret m = .ok a m') :
    Closes f.base m.leaving m' := by
  obtain ⟨v, m₁, popped, -⟩ := bind_ok result
  obtain ⟨closes, -⟩ := ret_closes frames (pop_ok popped).1 ordered fun defect m'' broken =>
    nomatch result.symm.trans broken
  rwa [result] at closes

/-- Only two instructions take places of cells away. -/
lemma not_discards (frames : m.frames = f :: callers)
    (decoded : f.closure.prototype.chunk.instrAt? f.ip = some i) (other : i ≠ .closeUpvalue)
    (other' : i ≠ .ret) : ¬ m.Discards slot := by
  rintro ⟨f', callers', frames', ⟨decoded', -⟩ | ⟨decoded', -⟩⟩ <;>
    obtain ⟨rfl, rfl⟩ := List.cons.inj (frames.symm.trans frames')
  · exact other (Option.some.inj (decoded.symm.trans decoded'))
  · exact other' (Option.some.inj (decoded.symm.trans decoded'))

/-- Only two instructions give variables in cells a value. -/
lemma not_gives (frames : m.frames = f :: callers)
    (decoded : f.closure.prototype.chunk.instrAt? f.ip = some i) (other : ∀ index, i ≠ .setUpvalue index)
    (other' : ∀ slot, i ≠ .setLocal slot) : ¬ m.Gives cell v := by
  rintro (⟨-, f', callers', index, frames', decoded', -⟩ | ⟨-, f', callers', index, frames', decoded', -⟩) <;>
    obtain ⟨rfl, rfl⟩ := List.cons.inj (frames.symm.trans frames')
  · exact other index (Option.some.inj (decoded.symm.trans decoded'))
  · exact other' index (Option.some.inj (decoded.symm.trans decoded'))

/-- A return, whether or not it is the end of the run, leaves the values of captured variables as they are,
and closes the cells of the places of the call. -/
lemma Active.ret_cells (h : Active bare c T E f callers below σ m) {next : Nat}
    (flows : Flows T E next σ .ret) (ordered : m.Ordered)
    (sound : ∀ defect m', ret (m.past f callers .ret) ≠ .error (.broken defect) m') :
    ∃ m₀, m₀.cells = m.cells ∧ (∀ cell, m₀.valueOf? cell = m.valueOf? cell) ∧
      Closes f.base m₀ (left (ret (m.past f callers .ret))) ∧
      KeepsBelow f.base m₀ (left (ret (m.past f callers .ret))) := by
  have size := h.memory.stack.size
  have reach := flows.reach
  rw [List.length_append, h.base] at size
  have one : Instr.ret.reach = 1 := rfl
  have one' : Instr.ret.pops = 1 := rfl
  rw [one, Shape.height] at reach
  have nonempty : m.stack.size - 1 < m.stack.size := by omega
  have top : m.stack.back? = some m.stack[m.stack.size - 1] := Array.getElem?_eq_getElem nonempty
  have above : f.base ≤ m.stack.pop.size := by
    rw [Array.size_pop]
    omega
  obtain ⟨closes, kept⟩ := ret_closes (m := m.past f callers .ret)
    (f := { f with ip := f.ip + Instr.ret.size }) rfl top (ordered.of_same rfl rfl) sound
  refine ⟨(m.past f callers .ret).leaving, rfl, fun cell => ?_, closes, kept above⟩
  cases there : m.cells[cell]? with
  | none => rw [valueOf?, valueOf?, show (m.past f callers .ret).leaving.cells = m.cells from rfl, there]
  | some content =>
    cases content with
    | closed v => rw [valueOf?_closed there, valueOf?_closed (m := (m.past f callers .ret).leaving) there]
    | opened slot =>
      have lower := h.open_below flows (fun same => by cases same) there
      rw [valueOf?_opened there, valueOf?_opened (m := (m.past f callers .ret).leaving) there]
      rw [one'] at lower
      exact (Array.getElem?_pop ..).trans (if_pos (Nat.lt_sub_of_add_lt lower))

/-- A step closes the cells of places that it takes away, and leaves the others open. -/
lemma step_opened (ordered : m.Ordered) (result : m.step = .ok a m') (opened : m.cells[cell]? = some (.opened slot)) :
    m.Discards slot ∧ (∃ v, m'.cells[cell]? = some (.closed v)) ∨
      ¬ m.Discards slot ∧ m'.cells[cell]? = some (.opened slot) := by
  obtain ⟨f, callers, i, frames, decoded, result⟩ := step_executes result
  have bound : cell < (m.past f callers i).cells.size := (Array.getElem?_eq_some_iff.1 opened).1
  have others : i ≠ .closeUpvalue → i ≠ .ret → m'.cells[cell]? = m.cells[cell]? →
      m.Discards slot ∧ (∃ v, m'.cells[cell]? = some (.closed v)) ∨
        ¬ m.Discards slot ∧ m'.cells[cell]? = some (.opened slot) :=
    fun other other' same => .inr ⟨not_discards frames decoded other other', same.trans opened⟩
  cases i with
  | setUpvalue index =>
    refine others nofun nofun ?_
    obtain ⟨cell', v, -, -, ⟨⟨w, closed⟩, rfl⟩ | ⟨slot', -, -, rfl⟩⟩ := exec_setUpvalue_ok rfl result
    · refine Array.getElem?_setIfInBounds_ne ?_
      rintro rfl
      cases closed.symm.trans opened
    · rfl
  | closeUpvalue =>
    obtain ⟨closes, -⟩ := closeUpvalue_closes (m := m.past f callers .closeUpvalue)
      (ordered.of_same rfl rfl) result
    by_cases higher : m.stack.size - 1 ≤ slot
    · -- What is closed has a value, so the place is on the stack.
      obtain ⟨v, value, closed⟩ := closes.closes opened higher
      have lower : slot < m.stack.size := (Array.getElem?_eq_some_iff.1 value).1
      exact .inl ⟨⟨f, callers, frames, .inl ⟨decoded, by omega⟩⟩, v, closed⟩
    · refine .inr ⟨?_, closes.stays opened (Nat.lt_of_not_le higher)⟩
      rintro ⟨f', callers', frames', ⟨-, size⟩ | ⟨decoded', -⟩⟩
      · omega
      · obtain ⟨rfl, rfl⟩ := List.cons.inj (frames.symm.trans frames')
        cases decoded.symm.trans decoded'
  | ret =>
    have closes := ret_ok_closes (m := m.past f callers .ret) (f := { f with ip := f.ip + Instr.ret.size }) rfl
      (ordered.of_same rfl rfl) result
    by_cases above : f.base ≤ slot
    · obtain ⟨v, -, closed⟩ := closes.closes opened above
      exact .inl ⟨⟨f, callers, frames, .inr ⟨decoded, above⟩⟩, v, closed⟩
    · refine .inr ⟨?_, closes.stays opened (Nat.lt_of_not_le above)⟩
      rintro ⟨f', callers', frames', ⟨decoded', -⟩ | ⟨-, above'⟩⟩ <;>
        obtain ⟨rfl, rfl⟩ := List.cons.inj (frames.symm.trans frames')
      · cases decoded.symm.trans decoded'
      · exact above above'
  | _ => exact others nofun nofun ((exec_keepsCells (by trivial)).kept result cell bound)

/-- A step changes the variable in a closed cell only by an assignment. -/
lemma step_closed (ordered : m.Ordered) (result : m.step = .ok a m') (closed : m.cells[cell]? = some (.closed v)) :
    m'.cells[cell]? = some (.closed v) ∨ ∃ w, m.Sets cell w ∧ m'.cells[cell]? = some (.closed w) := by
  obtain ⟨f, callers, i, frames, decoded, result⟩ := step_executes result
  have bound : cell < (m.past f callers i).cells.size := (Array.getElem?_eq_some_iff.1 closed).1
  cases i with
  | setUpvalue index =>
    obtain ⟨cell', w, captured, top, ⟨-, rfl⟩ | ⟨slot, -, -, rfl⟩⟩ := exec_setUpvalue_ok rfl result
    · by_cases same : cell = cell'
      · subst same
        exact .inr ⟨w, ⟨top, f, callers, index, frames, decoded, captured⟩,
          Array.getElem?_setIfInBounds_self_of_lt bound⟩
      · exact .inl ((Array.getElem?_setIfInBounds_ne (Ne.symm same)).trans closed)
    · exact .inl closed
  | closeUpvalue =>
    obtain ⟨closes, -⟩ := closeUpvalue_closes (m := m.past f callers .closeUpvalue) (ordered.of_same rfl rfl) result
    exact .inl (closes.closed closed)
  | ret =>
    have closes := ret_ok_closes (m := m.past f callers .ret) (f := { f with ip := f.ip + Instr.ret.size }) rfl
      (ordered.of_same rfl rfl) result
    exact .inl (closes.closed closed)
  | _ => exact .inl (((exec_keepsCells (by trivial)).kept result cell bound).trans closed)

/-- There is one open cell for a place. -/
lemma Ordered.unique (ordered : m.Ordered) {i j : Nat} (here : m.cells[i]? = some (.opened slot))
    (there : m.cells[j]? = some (.opened slot)) : i = j := by
  have here' := slotOf_eq_some.2 here
  have there' := slotOf_eq_some.2 there
  obtain ⟨a, inside, rfl⟩ := List.getElem_of_mem ((ordered.opened i).2 ⟨slot, here'⟩)
  obtain ⟨b, inside', rfl⟩ := List.getElem_of_mem ((ordered.opened j).2 ⟨slot, there'⟩)
  have decreasing := List.pairwise_iff_getElem.1 ordered.decreasing
  rcases Nat.lt_trichotomy a b with lower | rfl | higher
  · exact absurd (decreasing a b inside inside' lower slot slot here' there') (Nat.lt_irrefl slot)
  · rfl
  · exact absurd (decreasing b a inside' inside higher slot slot there' here') (Nat.lt_irrefl slot)

/-- An assignment to a local changes its place. -/
lemma exec_setLocal_ok {index : UInt8} (frames : m.frames = f :: callers)
    (result : exec (.setLocal index) m = .ok a m') :
    ∃ v, m.stack.back? = some v ∧ f.base + index.toNat < m.stack.size ∧
      m' = { m with stack := m.stack.setIfInBounds (f.base + index.toNat) v } := by
  obtain ⟨g, here, result⟩ := inspect_ok inferInstance result
  obtain ⟨v, looked, result⟩ := inspect_ok inferInstance result
  unfold frame at here
  rw [frames] at here
  obtain ⟨rfl, -⟩ := EStateM.Result.ok.inj here
  unfold peek at looked
  split at looked
  · obtain ⟨rfl, -⟩ := EStateM.Result.ok.inj looked
    unfold writeSlot at result
    split at result
    · next bound =>
      obtain ⟨-, rfl⟩ := EStateM.Result.ok.inj result
      exact ⟨_, Array.getElem?_eq_getElem _, bound, rfl⟩
    · exact nomatch result
  · exact nomatch looked

/-- A captured variable has the value it had, or else the one that the step gives it. -/
lemma Ready.values (ready : Ready bare m) (ordered : m.Ordered) (result : m.step = .ok a m')
    (value : m.valueOf? cell = some v) :
    (∀ w, ¬ m.Gives cell w) ∧ m'.valueOf? cell = some v ∨
      ∃ w, m.Gives cell w ∧ m'.valueOf? cell = some w := by
  rcases ready.reads with ⟨c, T, E, f, callers, below, σ, i, h, -, decoded, flows, step⟩ | ⟨-, _, step⟩
  · rw [step] at result
    have others : (∀ index, i ≠ .setUpvalue index) → (∀ slot, i ≠ .setLocal slot) →
        m'.valueOf? cell = m.valueOf? cell → (∀ w, ¬ m.Gives cell w) ∧ m'.valueOf? cell = some v ∨
          ∃ w, m.Gives cell w ∧ m'.valueOf? cell = some w :=
      fun other other' same => .inl ⟨fun w => not_gives h.frames decoded other other', same.trans value⟩
    have keeps : i.KeepsCells → i.IsPlain ∨ (∃ taken, i.Calls taken) → i ≠ .closeUpvalue →
        m'.valueOf? cell = m.valueOf? cell := by
      intro keeps kind other
      cases there : m.cells[cell]? with
      | none =>
        rw [valueOf?, there] at value
        exact nomatch value
      | some content =>
        have bound : cell < (m.past f callers i).cells.size := (Array.getElem?_eq_some_iff.1 there).1
        have there' := ((exec_keepsCells keeps).kept result cell bound).trans there
        cases content with
        | closed w => rw [valueOf?_closed there, valueOf?_closed there']
        | opened slot =>
          rw [valueOf?_opened there, valueOf?_opened there']
          exact exec_below (m := m.past f callers i) rfl kind result (h.open_below flows other there)
    cases i with
    | setUpvalue index =>
      obtain ⟨cell', w, captured, top, written⟩ := exec_setUpvalue_ok rfl result
      by_cases same : cell = cell'
      · subst same
        refine .inr ⟨w, .inl ⟨top, f, callers, index, h.frames, decoded, captured⟩, ?_⟩
        rcases written with ⟨⟨u, closed⟩, rfl⟩ | ⟨slot, opened, bound, rfl⟩
        · refine valueOf?_closed (Array.getElem?_setIfInBounds_self_of_lt ?_)
          exact (Array.getElem?_eq_some_iff.1 closed).1
        · exact valueOf?_write (m := m.past f callers _) rfl rfl bound opened
      · refine .inl ⟨?_, ?_⟩
        · rintro u (⟨-, f', callers', index', frames', decoded', captured'⟩ |
              ⟨-, f', callers', index', frames', decoded', -⟩) <;>
            obtain ⟨rfl, rfl⟩ := List.cons.inj (h.frames.symm.trans frames')
          · cases decoded.symm.trans decoded'
            cases captured.symm.trans captured'
            exact same rfl
          · exact nomatch decoded.symm.trans decoded'
        · rw [← value]
          rcases written with ⟨-, rfl⟩ | ⟨slot, opened, -, rfl⟩
          · have other : (m.cells.setIfInBounds cell' (.closed w))[cell]? = m.cells[cell]? :=
              Array.getElem?_setIfInBounds_ne (Ne.symm same)
            unfold valueOf?
            dsimp only [past]
            rw [other]
          · refine valueOf?_write_other (m := m.past f callers _) rfl rfl fun there => ?_
            exact same (ordered.unique there opened)
    | setLocal index =>
      obtain ⟨w, top, bound, rfl⟩ := exec_setLocal_ok rfl result
      by_cases own : m.cells[cell]? = some (.opened (f.base + index.toNat))
      · refine .inr ⟨w, .inr ⟨top, f, callers, index, h.frames, decoded, own⟩, ?_⟩
        exact valueOf?_write (m := m.past f callers _) rfl rfl bound own
      · refine .inl ⟨?_, ?_⟩
        · rintro u (⟨-, f', callers', index', frames', decoded', -⟩ |
              ⟨-, f', callers', index', frames', decoded', place⟩) <;>
            obtain ⟨rfl, rfl⟩ := List.cons.inj (h.frames.symm.trans frames')
          · exact nomatch decoded.symm.trans decoded'
          · cases decoded.symm.trans decoded'
            exact own place
        · rw [← value]
          exact valueOf?_write_other (m := m.past f callers _) rfl rfl own
    | closeUpvalue =>
      obtain ⟨closes, kept⟩ := closeUpvalue_closes (m := m.past f callers .closeUpvalue)
        (ordered.of_same rfl rfl) result
      exact others nofun nofun (closes.valueOf? kept cell)
    | ret =>
      have returned : ret (m.past f callers .ret) = .ok a m' := result
      obtain ⟨m₀, -, same, closes, kept⟩ := h.ret_cells flows ordered fun defect m'' broken =>
        nomatch returned.symm.trans broken
      rw [returned] at closes kept
      exact others nofun nofun ((closes.valueOf? kept cell).trans (same cell))
    | call | invoke | superInvoke =>
      exact others nofun nofun (keeps (by trivial) (.inr ⟨_, by constructor⟩) nofun)
    | _ => exact others nofun nofun (keeps (by trivial) (.inl (by trivial)) nofun)
  · exact nomatch step.symm.trans result

end Step

end Lox.Machine
