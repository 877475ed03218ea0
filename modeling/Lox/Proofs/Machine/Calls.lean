import Lox.Proofs.Compile.Heights
import Lox.Proofs.Compile.Pieces
import Lox.Proofs.Machine.Memory

/-!
# What is known of the calls

The code of a call agrees with shapes (`Fits`), and the stack has the shape of the place where the call
is, above the places of the calls around it (`Active`).  A call that waits for another one goes on with
the value that it is given in the place of the callee and its arguments (`Suspended`).

An action `Yields` a result if it gives a value, or fails as a program may, and then the memory is in
order.  It comes to a defect only if there may be closures without code.
-/

namespace Lox

open Compile Syntax

/-! ## Code -/

/-- The code of a function agrees with shapes, which start with its parameters above slot zero and are
those of the places that control flow reaches. -/
structure Fits (p : Prototype) (T : Surroundings) (E : Shapes) : Prop where
  compiled : ∃ Γ start items, Compiled p Γ start items
  pool : T.pool = p.chunk.constants
  captureCount : T.captureCount = p.captureCount
  closes : T.Closes = ClosedOver
  entry : ∃ slots, slots.length = p.arity.toNat + 1 ∧ (∀ s ∈ slots, s.kind = .any) ∧
    Goes E 0 ⟨slots, none⟩
  flows : ∀ o σ, E o = some σ → ∃ i, p.chunk.instrAt? o = some i ∧ o + i.size ≤ p.chunk.size ∧
    Flows T E (o + i.size) σ i
  reaches : ∀ {o σ}, E o = some σ → Reaches p o σ.height

open Classical in
/-- The shapes at some offsets only. -/
noncomputable def Shapes.among (E : Shapes) (P : Nat → Prop) : Shapes := fun o => if P o then E o else none

/-- Nothing is asked of shapes at places that the instruction does not lead to. -/
lemma Flows.among {T : Surroundings} {E : Shapes} {next : Nat} {σ : Shape} {i : Instr} {P : Nat → Prop}
    (flows : Flows T E next σ i) (leads : ∀ o ∈ i.successors next, P o) :
    Flows T (Shapes.among E P) next σ i := by
  have goes : ∀ {o τ}, o ∈ i.successors next → Goes E o τ → Goes (Shapes.among E P) o τ := by
    rintro o τ there ⟨υ, shape, refines⟩
    exact ⟨υ, (if_pos (leads o there)).trans shape, refines⟩
  cases i with
  | jump | loop =>
    first
    | exact goes List.mem_cons_self flows
    | exact ⟨flows.1, goes List.mem_cons_self flows.2⟩
  | jumpIfFalse =>
    exact ⟨flows.1, goes (List.mem_cons_of_mem _ List.mem_cons_self) flows.2.1,
      goes List.mem_cons_self flows.2.2⟩
  | ret => exact flows
  | _ =>
    obtain ⟨τ, execs, there⟩ := flows
    exact ⟨τ, execs, goes List.mem_cons_self there⟩

/-- Nothing is known of the values that a function is called with. -/
lemma Compile.Compiled.start_any {p : Prototype} {Γ : Context} {start : List Local}
    {items : List Item} (compiled : Compiled p Γ start items) :
    ∀ s ∈ slotsOf start, s.kind = .any := by
  intro s there
  obtain ⟨v, local_, rfl⟩ := List.mem_map.1 there
  exact if_neg (compiled.noneHidden v local_)

/-- The code of a compiled function agrees with shapes. -/
lemma Compile.Compiled.fits {p : Prototype} {Γ : Context} {start : List Local} {items : List Item}
    (compiled : Compiled p Γ start items) : ∃ E, Fits p Γ.surroundings E := by
  obtain ⟨E, starts, entry, valid⟩ := compiled.ends.shapes
  have code := congrArg List.length compiled.code
  obtain ⟨_, _, _, _, -, assembles, -⟩ := compiled.assembles
  let Reached (o : Nat) : Prop := ∃ h, Reaches p o h
  have shape : ∀ {o σ}, Shapes.among E Reached o = some σ → E o = some σ ∧ Reaches p o σ.height := by
    intro o σ there
    unfold Shapes.among at there
    split at there
    · next reached =>
      obtain ⟨h, reaches⟩ := reached
      obtain ⟨τ, there', rfl⟩ := compiled.reaches starts entry valid reaches
      obtain rfl := Option.some.inj (there'.symm.trans there)
      exact ⟨there, reaches⟩
    · exact nomatch there
  refine ⟨Shapes.among E Reached, ⟨_, _, _, compiled⟩, assembles.constants.symm,
    assembles.captureCount.symm, rfl, ⟨slotsOf start, ?_, compiled.start_any, ?_⟩, fun o σ there => ?_,
    fun there => (shape there).2⟩
  · rw [length_slotsOf, compiled.arity, Nat.add_comm]
  · obtain ⟨τ, there, refines⟩ := entry
    exact ⟨τ, (if_pos ⟨_, .entry⟩).trans there, refines⟩
  · obtain ⟨there, reaches⟩ := shape there
    obtain ⟨before, i, after, split, rfl⟩ := starts o σ there
    obtain ⟨σ', scope, there', -, flows⟩ := valid.instr split
    rw [Nat.zero_add] at there there' flows reaches ⊢
    obtain rfl := Option.some.inj (there.symm.trans there')
    have decoded := compiled.decoded split
    refine ⟨i, decoded, ?_, flows.among fun o leads => ⟨_, reaches.step decoded leads⟩⟩
    rw [split, bytes_append, bytes_cons, List.length_append, List.length_append, length_bytes,
      Instr.length_encode, Array.length_toList] at code
    rw [Chunk.size, code]
    omega

/-! ## Calls -/

/-- The code of a call agrees with shapes, and its closure has captured what the code expects. -/
structure Calls (c : Census) (f : Frame) (T : Surroundings) (E : Shapes) : Prop where
  fits : Fits f.closure.prototype T E
  captures : c.Captures f.closure.captured T.captureCount T.captured

/-- Calls that wait for the value of the one inside: with it in its place the code goes on. -/
inductive Suspended (c : Census) : List Slot → List Frame → Prop where
  | nil : Suspended c [] []
  | cons {f callers slots below T E} (calls : Calls c f T E)
      (returns : Goes E f.ip ⟨.plain :: slots, none⟩) (base : below.length = f.base)
      (rest : Suspended c below callers) : Suspended c (slots ++ below) (f :: callers)

lemma Calls.grow {c c' : Census} {f : Frame} {T : Surroundings} {E : Shapes} (h : Calls c f T E)
    (grows : c.Grows c') : Calls c' f T E :=
  ⟨h.fits, h.captures.grow grows⟩

lemma Suspended.grow {c c' : Census} {S : List Slot} {frames : List Frame} (h : Suspended c S frames)
    (grows : c.Grows c') : Suspended c' S frames := by
  induction h with
  | nil => exact .nil
  | cons calls returns base _ ih => exact .cons (calls.grow grows) returns base ih

namespace Machine

/-- The call `f`, with `callers` waiting for it, has a stack of a shape, above the places `below`. -/
structure Active (bare : Prop) (c : Census) (T : Surroundings) (E : Shapes) (f : Frame)
    (callers : List Frame) (below : List Slot) (σ : Shape) (m : Machine) : Prop where
  frames : m.frames = f :: callers
  calls : Calls c f T E
  base : below.length = f.base
  suspended : Suspended c below callers
  memory : Memory bare c (σ.slots ++ below) m
  global : ∀ x, σ.global = some x → ∃ r, m.globals.find? x = some (.cls r)

/-- Between two instructions, the running call is at a place of its code where the stack has this
shape; or else it is that of a closure without code. -/
def Ready (bare : Prop) (m : Machine) : Prop :=
  (∃ c T E f callers below σ, E f.ip = some σ ∧ Active bare c T E f callers below σ m) ∨
    bare ∧ ∃ c S f callers, m.frames = f :: callers ∧ f.closure.Bare ∧ Memory bare c S m

/-- The memory is in order, whatever there is on the stack. -/
def Intact (bare : Prop) (m : Machine) : Prop := ∃ c S, Memory bare c S m

lemma Ready.intact {bare : Prop} {m : Machine} (h : Ready bare m) : Intact bare m := by
  rcases h with ⟨c, _, _, _, _, below, σ, -, active⟩ | ⟨-, c, S, _, _, -, -, memory⟩
  · exact ⟨c, _, active.memory⟩
  · exact ⟨c, S, memory⟩

/-! ## Results -/

variable {α β : Type} {bare : Prop}

/-- The action has given a value, or stopped with the memory in order; a defect is the fault of a
closure without code. -/
def Yields (bare : Prop) (Q : α → Machine → Prop) : EStateM.Result Stop Machine α → Prop
  | .ok a m => Q a m
  | .error (.failed _) m => Intact bare m
  | .error .finished m => Intact bare m
  | .error (.broken _) _ => bare

lemma Yields.mono {Q R : α → Machine → Prop} {result : EStateM.Result Stop Machine α}
    (h : Yields bare Q result) (weaker : ∀ a m, Q a m → R a m) : Yields bare R result := by
  cases result with
  | ok a m => exact weaker a m h
  | error e m => cases e <;> exact h

lemma Yields.bind {Q : α → Machine → Prop} {R : β → Machine → Prop} {act : Action α}
    {f : α → Action β} {m : Machine} (first : Yields bare Q (act m))
    (second : ∀ a m', Q a m' → Yields bare R (f a m')) : Yields bare R ((act >>= f) m) := by
  rw [bind_apply]
  cases result : act m with
  | ok a m' =>
    rw [result] at first
    exact second a m' first
  | error e m' =>
    rw [result] at first
    cases e <;> exact first

namespace Active

variable {c c' : Census} {T : Surroundings} {E : Shapes} {f : Frame} {callers : List Frame}
  {below slots : List Slot} {g : Option String} {σ τ : Shape} {s : Slot} {k : Kind} {m m' : Machine}
  {v : Value} {Q : α → Machine → Prop}

/-! ### The shape -/

lemma refine (h : Active bare c T E f callers below σ m) (refines : σ.Refines τ) :
    Active bare c T E f callers below τ m := by
  have places : List.Forall₂ Slot.Refines (σ.slots ++ below) (τ.slots ++ below) :=
    List.rel_append refines.slots (List.forall₂_same.2 fun s _ => .refl s)
  exact { h with
    memory := ⟨h.memory.objects, h.memory.cells.refine places, h.memory.stack.refine places⟩
    global := fun x known => h.global x (refines.global x known) }

/-- The code goes on from a shape that it expects. -/
lemma ready (h : Active bare c T E f callers below σ m) (goes : Goes E f.ip σ) : Ready bare m := by
  obtain ⟨τ, there, refines⟩ := goes
  exact Or.inl ⟨c, T, E, f, callers, below, τ, there, h.refine refines⟩

lemma forget (h : Active bare c T E f callers below σ m) :
    Active bare c T E f callers below ⟨σ.slots, none⟩ m :=
  { h with global := fun _ known => nomatch known }

lemma intact (h : Active bare c T E f callers below σ m) : Intact bare m := ⟨c, _, h.memory⟩

lemma fails (h : Active bare c T E f callers below σ m) (error : RuntimeError) :
    Yields bare Q (fail error m) := h.intact

/-- The running call goes on with another machine, where there may be more objects. -/
lemma change (h : Active bare c T E f callers below σ m) (grows : c.Grows c')
    (frames : m'.frames = m.frames) (globals : m'.globals = m.globals)
    (memory : Memory bare c' (τ.slots ++ below) m')
    (known : ∀ x, τ.global = some x → σ.global = some x) :
    Active bare c' T E f callers below τ m' where
  frames := frames.trans h.frames
  calls := h.calls.grow grows
  base := h.base
  suspended := h.suspended.grow grows
  memory := memory
  global x there := by rw [globals]; exact h.global x (known x there)

/-! ### The stack -/

lemma yields_push (h : Active bare c T E f callers below ⟨slots, g⟩ m) (shared : Bool)
    (holds : k.Holds v) (sound : v.Sound bare c) :
    Yields bare (fun _ m' => Active bare c T E f callers below ⟨⟨k, shared⟩ :: slots, g⟩ m')
      (push v m) :=
  h.change (.refl c) rfl rfl
    ⟨h.memory.objects, h.memory.cells.push _, h.memory.stack.push holds sound⟩ fun _ known => known

lemma yields_pop (h : Active bare c T E f callers below ⟨⟨k, false⟩ :: slots, g⟩ m) :
    Yields bare (fun v m' => k.Holds v ∧ v.Sound bare c ∧
      Active bare c T E f callers below ⟨slots, g⟩ m') (pop m) := by
  obtain ⟨v, top, holds, sound⟩ := h.memory.stack.top
  rw [pop, top]
  exact ⟨holds, sound, h.change (.refl c) rfl rfl
    ⟨h.memory.objects, h.memory.cells.pop rfl, h.memory.stack.pop⟩ fun _ known => known⟩

lemma yields_peek (h : Active bare c T E f callers below ⟨slots, g⟩ m) {d : Nat}
    (there : slots[d]? = some s) :
    Yields bare (fun v m' => m = m' ∧ s.kind.Holds v ∧ v.Sound bare c) (peek d m) := by
  have place : (slots ++ below)[d]? = some s := by
    rw [List.getElem?_append_left (List.getElem?_eq_some_iff.1 there).1, there]
  obtain ⟨bound, v, value, holds, sound⟩ := h.memory.stack.at_distance place
  obtain ⟨_, rfl⟩ := Array.getElem?_eq_some_iff.1 value
  rw [peek, dif_pos bound]
  exact ⟨rfl, holds, sound⟩

lemma yields_replace (h : Active bare c T E f callers below ⟨slots, g⟩ m) {d : Nat}
    (there : slots[d]? = some .plain) (sound : v.Sound bare c) :
    Yields bare (fun _ m' => Active bare c T E f callers below ⟨slots, g⟩ m') (replace d v m) := by
  have bound := (List.getElem?_eq_some_iff.1 there).1
  have inside : d < (slots ++ below).length := by
    rw [List.length_append]
    omega
  have place : fromBottom? (slots ++ below) ((slots ++ below).length - 1 - d) =
      some ⟨.any, false⟩ := by
    rw [fromBottom?_eq_getElem? _ inside, List.getElem?_append_left bound]
    exact there
  have size := h.memory.stack.size
  rw [size] at place inside
  rw [replace, if_pos inside]
  exact h.change (.refl c) rfl rfl
    ⟨h.memory.objects, h.memory.cells, h.memory.stack.write place sound⟩ fun _ known => known

/-- A place of the running call, counted from its slot zero. -/
lemma place (h : Active bare c T E f callers below ⟨slots, g⟩ m) {i : Nat}
    (there : fromBottom? slots i = some s) : fromBottom? (slots ++ below) (f.base + i) = some s := by
  rw [← h.base, fromBottom?_append_add, there]

lemma yields_readSlot (h : Active bare c T E f callers below ⟨slots, g⟩ m) {slot : Nat}
    (there : fromBottom? (slots ++ below) slot = some s) :
    Yields bare (fun v m' => m = m' ∧ s.kind.Holds v ∧ v.Sound bare c) (readSlot slot m) := by
  obtain ⟨v, value, holds, sound⟩ := h.memory.stack.at_place there
  rw [readSlot, value]
  exact ⟨rfl, holds, sound⟩

lemma yields_writeSlot (h : Active bare c T E f callers below ⟨slots, g⟩ m) {slot : Nat}
    {shared : Bool} (there : fromBottom? (slots ++ below) slot = some ⟨.any, shared⟩)
    (sound : v.Sound bare c) :
    Yields bare (fun _ m' => Active bare c T E f callers below ⟨slots, g⟩ m')
      (writeSlot slot v m) := by
  have bound := fromBottom?_lt there
  rw [h.memory.stack.size] at bound
  rw [writeSlot, if_pos bound]
  exact h.change (.refl c) rfl rfl
    ⟨h.memory.objects, h.memory.cells, h.memory.stack.write there sound⟩ fun _ known => known

/-! ### The code -/

lemma yields_frame (h : Active bare c T E f callers below σ m) :
    Yields bare (fun f' m' => f = f' ∧ m = m') (frame m) := by
  rw [frame, h.frames]
  exact ⟨rfl, rfl⟩

lemma yields_constant (h : Active bare c T E f callers below σ m) {index : UInt8} {k : Constant}
    (there : T.pool[index.toNat]? = some k) :
    Yields bare (fun k' m' => k = k' ∧ m = m') (constant index m) := by
  refine Yields.bind h.yields_frame ?_
  rintro _ _ ⟨rfl, rfl⟩
  rw [← h.calls.fits.pool, there]
  exact ⟨rfl, rfl⟩

lemma yields_name (h : Active bare c T E f callers below σ m) {index : UInt8} {x : String}
    (there : T.IsName index x) : Yields bare (fun x' m' => x = x' ∧ m = m') (name index m) := by
  obtain ⟨object, entry, rfl⟩ := there
  refine Yields.bind (h.yields_constant entry) ?_
  rintro _ _ ⟨rfl, rfl⟩
  exact ⟨rfl, rfl⟩

/-- The running call goes on at another offset. -/
lemma yields_goto (h : Active bare c T E f callers below σ m) (ip : Nat) :
    Yields bare (fun _ m' => Active bare c T E { f with ip } callers below σ m') (goto ip m) := by
  rw [goto, h.frames]
  exact {
    frames := rfl
    calls := ⟨h.calls.fits, h.calls.captures⟩
    base := h.base
    suspended := h.suspended
    memory := ⟨h.memory.objects, h.memory.cells, h.memory.stack⟩
    global := h.global }

lemma failsUnread (h : Active bare c T E f callers below σ m) (error : RuntimeError) :
    Yields bare Q (failUnread error m) := by
  refine Yields.bind h.yields_frame ?_
  rintro _ _ ⟨rfl, rfl⟩
  exact (h.yields_goto _).bind fun _ m' h' => h'.fails error

end Active

end Machine

end Lox
