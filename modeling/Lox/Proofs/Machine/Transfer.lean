import Lox.Proofs.Machine.Steps

/-!
# Calls, returns and jumps

The instructions after which another call may run, or this one goes on somewhere else, and the making
of closures, which are what is called.  With them every step leads from a state where the machine is
ready to one where it is ready (`step_yields`).
-/

namespace Lox

open Compile

/-- A callee and its arguments. -/
def callSlots (count : UInt8) : List Slot := List.replicate (count.toNat + 1) .plain

/-- A closure with code has captured what its code expects. -/
lemma Closure.Sound.calls {bare : Prop} {c : Census} {w : Closure} (sound : w.Sound bare c)
    (ip base : Nat) : (∃ T E, Calls c ⟨w, ip, base⟩ T E) ∨ bare ∧ w.Bare := by
  rcases sound with ⟨_, ⟨Γ, start, items, compiled, rfl⟩, captures⟩ | none
  · obtain ⟨E, fits⟩ := compiled.fits
    rw [← fits.captureCount] at captures
    exact .inl ⟨_, E, fits, captures⟩
  · exact .inr none

lemma length_callSlots (count : UInt8) : (callSlots count).length = count.toNat + 1 :=
  List.length_replicate

/-- What is known of arguments may be forgotten, if no cell refers to them. -/
lemma refines_callSlots {args : List Slot} {count : UInt8} (length : args.length = count.toNat + 1)
    (unshared : Unshared args) : List.Forall₂ Slot.Refines args (callSlots count) := by
  unfold callSlots
  rw [← length]
  clear length
  induction args with
  | nil => exact .nil
  | cons s args ih =>
    obtain ⟨k, shared⟩ := s
    obtain rfl : shared = false := unshared _ List.mem_cons_self
    exact .cons (Slot.refines_plain k false) (ih fun s there => unshared s (List.mem_cons_of_mem _ there))

namespace Machine

variable {bare : Prop} {c c' : Census} {T : Surroundings} {E : Shapes} {f : Frame}
  {callers : List Frame} {below slots : List Slot} {g : Option String} {σ τ : Shape} {s : Slot}
  {k : Kind} {m : Machine} {v : Value} {index count : UInt8} {x : String}

/-- No cell refers to the arguments of a call. -/
lemma CellsFit.drop_callSlots {S : List Slot} {cells : Array Cell}
    (h : CellsFit bare c (callSlots count ++ S) cells) : CellsFit bare c S cells := by
  unfold callSlots at h
  generalize count.toNat + 1 = n at h
  induction n with
  | zero => exact h
  | succ n ih => exact ih (CellsFit.pop h rfl)

namespace Active

/-! ## Calls -/

/-- A closure is called: its code starts with the arguments on the stack, and the running call waits
for the value. -/
lemma yields_call (h : Active bare c T E f callers below ⟨callSlots count ++ slots, g⟩ m)
    (returns : Goes E f.ip ⟨.plain :: slots, none⟩) {w : Closure} (sound : w.Sound bare c) :
    Yields bare (fun _ m' => Ready bare m') (call w count m) := by
  have size := h.memory.stack.size
  rw [List.append_assoc, List.length_append, length_callSlots] at size
  unfold call
  dsimp only
  split
  · exact h.intact
  · next arity =>
    split
    · exact h.intact
    · rw [if_pos (by omega)]
      have base : m.stack.size - 1 - count.toNat = (slots ++ below).length := by omega
      rw [base, h.frames]
      rcases Closure.Sound.calls sound 0 (slots ++ below).length with ⟨T', E', calls⟩ | ⟨none, empty⟩
      · obtain ⟨start, length, any, entry⟩ := calls.fits.entry
        have refines : List.Forall₂ Slot.Refines (callSlots count) start := by
          rw [not_not] at arity
          rw [callSlots, ← arity, ← length]
          clear length entry
          induction start with
          | nil => exact .nil
          | cons s start ih =>
            obtain ⟨kind, shared⟩ := s
            obtain rfl : kind = .any := any _ List.mem_cons_self
            exact .cons (Slot.refines_plain .any shared)
              (ih fun s there => any s (List.mem_cons_of_mem _ there))
        have memory := h.memory
        rw [List.append_assoc] at memory
        have active : Active bare c T' E' ⟨w, 0, (slots ++ below).length⟩ (f :: callers)
            (slots ++ below) ⟨callSlots count, none⟩
            { m with frames := ⟨w, 0, (slots ++ below).length⟩ :: f :: callers } := {
          frames := rfl
          calls := calls
          base := rfl
          suspended := .cons h.calls returns h.base h.suspended
          memory := ⟨memory.objects, memory.cells, memory.stack⟩
          global := fun _ known => nomatch known }
        exact active.ready (entry.refine ⟨refines, fun _ known => nomatch known⟩)
      · exact Or.inr ⟨none, c, _, _, _, rfl, empty,
          h.memory.objects, h.memory.cells, h.memory.stack⟩

/-- The callee is replaced. -/
lemma yields_replaceCallee (h : Active bare c T E f callers below ⟨callSlots count ++ slots, g⟩ m)
    (sound : v.Sound bare c) :
    Yields bare (fun _ m' => Active bare c T E f callers below ⟨callSlots count ++ slots, g⟩ m')
      (replace count.toNat v m) := by
  have bound : count.toNat < (callSlots count).length := by
    rw [length_callSlots]
    exact Nat.lt_succ_self _
  refine h.yields_replace ?_ sound
  rw [List.getElem?_append_left bound, List.getElem?_eq_getElem bound]
  exact congrArg some (List.getElem_replicate _)

/-- Callee and arguments are dropped. -/
lemma yields_cutCall (h : Active bare c T E f callers below ⟨callSlots count ++ slots, g⟩ m) :
    Yields bare (fun _ m' => Active bare c T E f callers below ⟨slots, none⟩ m')
      (cutStack (slots ++ below).length m) := by
  have memory := h.memory
  rw [List.append_assoc] at memory
  exact h.forget.change (.refl c) rfl rfl
    ⟨memory.objects, memory.cells.drop_callSlots, memory.stack.cut⟩ fun _ known => known

/-- A function of the host is called: its value takes the place of callee and arguments. -/
lemma yields_callNative (h : Active bare c T E f callers below ⟨callSlots count ++ slots, g⟩ m)
    (returns : Goes E f.ip ⟨.plain :: slots, none⟩) {r : NativeRef}
    (sound : (Value.native r).Sound bare c) :
    Yields bare (fun _ m' => Ready bare m') (callNative r count m) := by
  have size := h.memory.stack.size
  rw [List.append_assoc, List.length_append, length_callSlots] at size
  have bound : r.serial < m.natives.size := Nat.lt_of_lt_of_eq sound h.memory.objects.bodies
  unfold callNative
  split
  · exact h.fails _
  · show Yields bare _ ((orBroken .badObject m.natives[r.serial]? >>= _ : Action Unit) m)
    have finds : orBroken .badObject (some m.natives[r.serial]) m = .ok m.natives[r.serial] m := rfl
    rw [Array.getElem?_eq_getElem bound, bind_apply, finds]
    dsimp only
    generalize given_ : m.stack.extract (m.stack.size - count.toNat) m.stack.size = given
    have onStack : ∀ w ∈ given, w.Sound bare c := by
      intro w there
      rw [← given_] at there
      obtain ⟨i, lower, rfl⟩ := Array.mem_extract_iff_getElem.1 there
      exact h.memory.stack.sound (Array.getElem_mem _)
    cases answer : m.natives[r.serial] (m.host r.serial) given with
    | error message => exact ⟨c, _, h.memory.remember _ onStack nofun⟩
    | ok blueprint =>
      have fair := h.memory.objects.fair _ (Array.getElem_mem bound) _ _ _ answer
      obtain ⟨c', grows, memory, made⟩ := h.memory.build fair onStack
      have answered : ∀ w ∈ some (m.build blueprint).1, w.Sound bare c' := fun w same => Option.some.inj same ▸ made
      have remembered := memory.remember r.serial (fun w there => (onStack w there).grow grows) answered
      have built : Active bare c' T E f callers below ⟨callSlots count ++ slots, g⟩
          ((m.build blueprint).2.remember r.serial given (some (m.build blueprint).1)) := by
        have aside : (m.build blueprint).2.frames = m.frames ∧
            (m.build blueprint).2.globals = m.globals := by
          cases blueprint <;> exact ⟨rfl, rfl⟩
        exact h.change grows aside.1 aside.2 remembered fun _ known => known
      show Yields bare _ ((cutStack (m.stack.size - count.toNat - 1) >>= fun _ =>
        push (m.build blueprint).1 : Action Unit)
          ((m.build blueprint).2.remember r.serial given (some (m.build blueprint).1)))
      have base : m.stack.size - count.toNat - 1 = (slots ++ below).length := by omega
      rw [base]
      refine Yields.bind built.yields_cutCall ?_
      intro _ m' h'
      have any : Kind.any.Holds (m.build blueprint).1 := trivial
      exact (h'.yields_push false any made).mono fun _ _ there => there.ready returns

/-- A class is called: an instance takes its place, and its initializer is called. -/
lemma yields_construct (h : Active bare c T E f callers below ⟨callSlots count ++ slots, g⟩ m)
    (returns : Goes E f.ip ⟨.plain :: slots, none⟩) {r : ClassRef}
    (sound : (Value.cls r).Sound bare c) :
    Yields bare (fun _ m' => Ready bare m') (construct r count m) := by
  obtain ⟨c', grows, memory, made⟩ := h.memory.newInstance sound
  have h₁ : Active bare c' T E f callers below ⟨callSlots count ++ slots, g⟩ (m.newInstance r).2 :=
    h.change grows rfl rfl memory fun _ known => known
  show Yields bare _ ((replace count.toNat (m.newInstance r).1 >>= fun _ => _ : Action Unit)
    (m.newInstance r).2)
  refine Yields.bind (h₁.yields_replaceCallee made) ?_
  intro _ m₂ h₂
  refine Yields.bind (h₂.yields_methodsOf (sound.grow grows)) ?_
  rintro methods _ ⟨rfl, fair⟩
  cases found : methods.find? "init" with
  | some initializer => exact h₂.yields_call returns (fair _ _ found)
  | none =>
    by_cases none : count = 0
    · subst none
      exact h₂.forget.ready returns
    · simp only [if_neg none]
      exact h₂.fails _

lemma yields_callValue (h : Active bare c T E f callers below ⟨callSlots count ++ slots, g⟩ m)
    (returns : Goes E f.ip ⟨.plain :: slots, none⟩) (sound : v.Sound bare c) :
    Yields bare (fun _ m' => Ready bare m') (callValue v count m) := by
  cases v with
  | bound serial receiver w =>
    refine Yields.bind (h.yields_replaceCallee sound.1) ?_
    intro _ m' h'
    exact h'.yields_call returns sound.2
  | cls r => exact h.yields_construct returns sound
  | closure w => exact h.yields_call returns sound
  | native r => exact h.yields_callNative returns sound
  | nil | bool | number | string | prototype | inst => exact h.fails _

lemma yields_invokeFromClass
    (h : Active bare c T E f callers below ⟨callSlots count ++ slots, g⟩ m)
    (returns : Goes E f.ip ⟨.plain :: slots, none⟩) {r : ClassRef}
    (sound : (Value.cls r).Sound bare c) (x : String) :
    Yields bare (fun _ m' => Ready bare m') (invokeFromClass r x count m) := by
  refine Yields.bind (h.yields_method sound x) ?_
  rintro w _ ⟨rfl, sound'⟩
  exact h.yields_call returns sound'

/-- The value below the arguments. -/
lemma yields_peekCallee (h : Active bare c T E f callers below ⟨callSlots count ++ slots, g⟩ m) :
    Yields bare (fun v m' => m = m' ∧ v.Sound bare c) (peek count.toNat m) := by
  have bound : count.toNat < (callSlots count).length := by
    rw [length_callSlots]
    exact Nat.lt_succ_self _
  have there : (callSlots count ++ slots)[count.toNat]? = some (callSlots count)[count.toNat] := by
    rw [List.getElem?_append_left bound, List.getElem?_eq_getElem bound]
  exact (h.yields_peek there).mono fun _ _ ⟨same, _, sound⟩ => ⟨same, sound⟩

lemma yields_invoke (h : Active bare c T E f callers below ⟨callSlots count ++ slots, g⟩ m)
    (returns : Goes E f.ip ⟨.plain :: slots, none⟩) (x : String) :
    Yields bare (fun _ m' => Ready bare m') (invoke x count m) := by
  refine Yields.bind h.yields_peekCallee ?_
  rintro v _ ⟨rfl, sound⟩
  cases v with
  | inst serial r =>
    refine Yields.bind (h.yields_field sound x) ?_
    rintro (_ | v) _ ⟨rfl, fields⟩
    · exact h.yields_invokeFromClass returns sound.2 x
    · refine Yields.bind (h.yields_replaceCallee (fields v rfl)) ?_
      intro _ m' h'
      exact h'.yields_callValue returns (fields v rfl)
  | _ => exact h.fails _

end Active

/-! ## Closures -/

/-- The running call makes a closure.  Cells may already refer to the place that the closure will
have. -/
structure Capturing (bare : Prop) (c : Census) (T : Surroundings) (E : Shapes) (f : Frame)
    (callers : List Frame) (below slots : List Slot) (s : Slot) (m : Machine) : Prop where
  frames : m.frames = f :: callers
  calls : Calls c f T E
  base : below.length = f.base
  suspended : Suspended c below callers
  objects : Objects bare c m.methods m.fields m.globals m.natives m.hostCalls
  cells : CellsFit bare c (s :: slots ++ below) m.cells
  stack : StackFits bare c (slots ++ below) m.stack
  ordered : m.Ordered

lemma captureAll_cons (capture : Capture) (captures : List Capture) (found : Array Nat) :
    captureAll (capture :: captures) found =
      (if capture.isLocal then do captureSlot ((← frame).base + capture.index.toNat)
        else capturedCell capture.index) >>= fun cell => captureAll captures (found.push cell) := by
  rw [captureAll]
  split
  · rw [bind_assoc]
  · rfl

namespace Capturing

lemma yields_frame (h : Capturing bare c T E f callers below slots s m) :
    Yields bare (fun f' m' => f = f' ∧ m = m') (frame m) := by
  rw [frame, h.frames]
  exact ⟨rfl, rfl⟩

/-- The cell for a place is found, or else there is one more. -/
lemma yields_captureSlot (h : Capturing bare c T E f callers below slots s m) {slot : Nat}
    (there : fromBottom? (s :: slots ++ below) slot = some ⟨k, true⟩) :
    Yields bare (fun cell m' => ∃ c', c.Grows c' ∧
        Capturing bare c' T E f callers below slots s m' ∧ c'.cells[cell]? = some k)
      (captureSlot slot m) := by
  rcases captureSlot_cases h.ordered slot with ⟨i, place, found⟩ | ⟨openCells, ordered, opened⟩
  · rw [found]
    have here := slotOf_eq_some.1 place
    obtain ⟨k', known⟩ := h.cells.kind here
    have same := there.symm.trans (h.cells.opened here known)
    obtain rfl : k = k' := congrArg Slot.kind (Option.some.inj same)
    exact ⟨c, .refl c, h, known⟩
  · rw [opened]
    have grows : c.Grows { c with cells := c.cells ++ [k] } :=
      ⟨Nat.le_refl _, Nat.le_refl _, Nat.le_refl _, List.prefix_append _ _⟩
    refine ⟨{ c with cells := c.cells ++ [k] }, grows, ?_, ?_⟩
    · exact {
        frames := h.frames
        calls := h.calls.grow grows
        base := h.base
        suspended := h.suspended.grow grows
        objects := h.objects.grow grows rfl rfl rfl
        cells := h.cells.capture there
        stack := h.stack.grow grows
        ordered := ordered }
    · rw [← h.cells.size]
      exact List.getElem?_concat_length

lemma yields_capturedCell (h : Capturing bare c T E f callers below slots s m)
    (bound : index.toNat < T.captureCount) :
    Yields bare (fun cell m' => c.cells[cell]? = some (T.captured index.toNat) ∧ m = m')
      (capturedCell index m) := by
  refine Yields.bind h.yields_frame ?_
  rintro _ _ ⟨rfl, rfl⟩
  rw [← h.calls.captures.size] at bound
  have there := Array.getElem?_eq_getElem bound
  rw [there]
  exact ⟨h.calls.captures.cells _ _ there, rfl⟩

/-- A variable is captured.  The place of the closure itself can be captured too. -/
lemma yields_capture (h : Capturing bare c T E f callers below slots s m) {capture : Capture}
    (finds : T.Finds slots capture k)
    (own : capture.isLocal = true → capture.index.toNat = slots.length → s = ⟨.any, true⟩) :
    Yields bare (fun cell m' => ∃ c', c.Grows c' ∧
        Capturing bare c' T E f callers below slots s m' ∧ c'.cells[cell]? = some k)
      ((if capture.isLocal then do captureSlot ((← frame).base + capture.index.toNat)
        else capturedCell capture.index : Action Nat) m) := by
  unfold Surroundings.Finds at finds
  split
  · next isLocal =>
    rw [if_pos isLocal] at finds
    refine Yields.bind h.yields_frame ?_
    rintro _ _ ⟨rfl, rfl⟩
    refine h.yields_captureSlot ?_
    rw [← h.base, fromBottom?_append_add, fromBottom?_cons]
    rcases finds with there | ⟨top, rfl⟩
    · rw [if_neg (Nat.ne_of_lt (fromBottom?_lt there)), there]
    · rw [if_pos top, own isLocal top]
  · next outer =>
    rw [if_neg outer] at finds
    obtain ⟨bound, rfl⟩ := finds
    exact (h.yields_capturedCell bound).mono fun cell m' ⟨known, same⟩ =>
      ⟨c, .refl c, same ▸ h, known⟩

/-- All variables are captured. -/
lemma yields_captureAll {kinds : Nat → Kind} (captures : List Capture) (found : Array Nat)
    (h : Capturing bare c T E f callers below slots s m)
    (before : ∀ i cell, found[i]? = some cell → c.cells[cell]? = some (kinds i))
    (finds : ∀ i (bound : i < captures.length), T.Finds slots captures[i] (kinds (found.size + i)))
    (own : ∀ capture ∈ captures, capture.isLocal = true → capture.index.toNat = slots.length →
      s = ⟨.any, true⟩) :
    Yields bare (fun found' m' => ∃ c', c.Grows c' ∧
        Capturing bare c' T E f callers below slots s m' ∧
        c'.Captures found' (found.size + captures.length) kinds)
      (captureAll captures found m) := by
  induction captures generalizing found c m with
  | nil => exact ⟨c, .refl c, h, rfl, before⟩
  | cons capture captures ih =>
    have first := finds 0 (Nat.succ_pos _)
    rw [Nat.add_zero] at first
    rw [captureAll_cons]
    refine Yields.bind (h.yields_capture first (own _ List.mem_cons_self)) ?_
    rintro cell m' ⟨c', grows, h', known⟩
    have sum : (found.push cell).size + captures.length = found.size + (captures.length + 1) := by
      rw [Array.size_push]
      omega
    rw [List.length_cons, ← sum]
    refine (ih (found.push cell) h' (fun i cell' there => ?_) (fun i bound => ?_)
      fun capture there => own capture (List.mem_cons_of_mem _ there)).mono
        fun found' m'' ⟨c'', grows', h'', captured⟩ => ⟨c'', grows.trans grows', h'', captured⟩
    · rw [Array.getElem?_push] at there
      split at there
      · next last => rw [last, ← Option.some.inj there, known]
      · exact grows.cell (before i cell' there)
    · have next := finds (i + 1) (Nat.succ_lt_succ bound)
      rwa [Array.size_push, Nat.add_assoc, Nat.add_comm 1]

end Capturing

namespace Active

lemma exec_closure (h : Active bare c T E f callers below ⟨slots, g⟩ m) (ordered : m.Ordered)
    {captures : List Capture} {p : Prototype} {kinds : Nat → Kind}
    (entry : T.pool[index.toNat]? = some (.prototype p)) (closes : T.Closes p kinds)
    (count : captures.length = p.captureCount)
    (finds : ∀ i (bound : i < captures.length), T.Finds slots captures[i] (kinds i)) :
    Yields bare (fun _ m' => GoesOn bare T E f callers below
        ⟨closureSlot slots.length captures :: slots, none⟩ m')
      (exec (.closure index captures) m) := by
  refine Yields.bind (h.yields_constant entry) ?_
  rintro _ _ ⟨rfl, rfl⟩
  have capturing : Capturing bare c T E f callers below slots
      (closureSlot slots.length captures) m := {
    frames := h.frames
    calls := h.calls
    base := h.base
    suspended := h.suspended
    objects := h.memory.objects
    cells := h.memory.cells.push _
    stack := h.memory.stack
    ordered := ordered }
  have unfound : ∀ i cell, (#[] : Array Nat)[i]? = some cell → c.cells[cell]? = some (kinds i) :=
    fun i cell there => nomatch there
  refine Yields.bind (capturing.yields_captureAll captures #[] unfound (fun i bound => ?_)
    (fun capture there isLocal top => ?_)) ?_
  · rw [Array.size_empty, Nat.zero_add]
    exact finds i bound
  · exact if_pos ⟨capture, there, isLocal, top⟩
  · rintro captured m' ⟨c', grows, h', captures'⟩
    rw [Array.size_empty, Nat.zero_add, count] at captures'
    rw [h'.calls.fits.closes] at closes
    have sound : (Value.closure ⟨m'.nextClosure, p, captured⟩).Sound bare c' :=
      Or.inl ⟨kinds, closes, captures'⟩
    have holds : (closureSlot slots.length captures).kind.Holds
        (.closure ⟨m'.nextClosure, p, captured⟩) := by
      unfold closureSlot
      split
      · trivial
      · exact ⟨_, rfl⟩
    exact ⟨c', {
      frames := h'.frames
      calls := h'.calls
      base := h'.base
      suspended := h'.suspended
      memory := ⟨h'.objects, h'.cells, h'.stack.push holds sound⟩
      global := fun _ known => nomatch known }⟩

/-! ## Ends of scopes and of calls -/

lemma exec_closeUpvalue (h : Active bare c T E f callers below ⟨s :: slots, g⟩ m)
    (ordered : m.Ordered) :
    Yields bare (fun _ m' => GoesOn bare T E f callers below ⟨slots, none⟩ m')
      (exec .closeUpvalue m) := by
  obtain ⟨closing, openCells, parts, cells⟩ :=
    @CellsFit.close _ _ (slots ++ below) [s] m h.memory.cells h.memory.stack ordered
  obtain ⟨v, top, -, -⟩ := h.memory.stack.top
  have last : m.stack.size - 1 = (slots ++ below).length := by
    rw [← h.memory.stack.size]
    rfl
  have ends : exec .closeUpvalue m = .ok ()
      { m with openCells, cells := closeAll closing m.cells, stack := m.stack.pop } := by
    show ((closeCells (m.stack.size - 1) >>= fun _ => pop >>= fun _ => pure () : Action Unit) m) = _
    simp only [bind_apply, closeCells, last, parts, pop, top]
    rfl
  rw [ends]
  exact ⟨c, h.change (.refl c) rfl rfl ⟨h.memory.objects, cells, h.memory.stack.pop⟩
    (by rintro _ ⟨⟩)⟩

/-- The call around goes on with the value that is returned, if there is one. -/
lemma exec_ret (h : Active bare c T E f callers below ⟨⟨k, false⟩ :: slots, g⟩ m)
    (ordered : m.Ordered) : Yields bare (fun _ m' => Ready bare m') (exec .ret m) := by
  obtain ⟨v, top, -, sound⟩ := h.memory.stack.top
  have leaving : StackFits bare c (slots ++ below) m.leaving.stack := h.memory.stack.pop
  have cells : CellsFit bare c (slots ++ below) m.leaving.cells := h.memory.cells.pop rfl
  obtain ⟨closing, openCells, parts, closed⟩ := cells.close leaving (ordered.of_same rfl rfl)
  have same : m.leaving.openCells = m.openCells := rfl
  rw [same] at parts
  rw [exec, ret_apply h.frames top, ← h.base, parts]
  have memory : Memory bare c below { m.leaving with
      stack := m.leaving.stack.shrink below.length, openCells
      cells := closeAll closing m.cells } := ⟨h.memory.objects, closed, leaving.cut⟩
  have rest : m.leaving.frames = callers := congrArg List.tail h.frames
  dsimp only
  cases h.suspended with
  | nil => exact ⟨c, _, memory⟩
  | @cons f' callers' slots' below' T' E' calls returns base suspended =>
    have returned : Active bare c T' E' f' callers' below' ⟨slots', none⟩ { m.leaving with
        stack := m.leaving.stack.shrink (slots' ++ below').length, openCells
        cells := closeAll closing m.cells } := {
      frames := rest
      calls := calls
      base := base
      suspended := suspended
      memory := memory
      global := fun _ known => nomatch known }
    exact (returned.yields_push false (k := .any) trivial sound).ready returns

/-! ## Steps -/

/-- An instruction that the next one follows. -/
lemma exec_yields (h : Active bare c T E f callers below σ m) (ordered : m.Ordered) {i : Instr}
    (execs : Exec T i σ τ) (goes : Goes E f.ip τ) :
    Yields bare (fun _ m' => Ready bare m') (exec i m) := by
  have goesOn : ∀ {act : Action Unit},
      Yields bare (fun _ m' => GoesOn bare T E f callers below τ m') (act m) →
        Yields bare (fun _ m' => Ready bare m') (act m) :=
    fun done => done.mono fun _ _ ⟨_, h'⟩ => h'.ready goes
  have calls : ∀ {args slots g} {count : UInt8}, args.length = count.toNat + 1 → Unshared args →
      ∀ {m}, Active bare c T E f callers below ⟨args ++ slots, g⟩ m →
        Active bare c T E f callers below ⟨callSlots count ++ slots, g⟩ m :=
    fun length unshared _ h => h.refine ⟨List.rel_append (refines_callSlots length unshared)
      (List.forall₂_same.2 fun s _ => .refl s), fun _ known => known⟩
  cases execs with
  | constant entry plain => exact goesOn (h.exec_constant entry plain)
  | literal kind => exact goesOn (h.exec_literal kind)
  | pop => exact goesOn h.exec_pop
  | getLocal found => exact goesOn (h.exec_getLocal found)
  | setLocal nonempty found => exact goesOn (h.exec_setLocal nonempty found)
  | getGlobal named => exact goesOn (h.exec_getGlobal named)
  | defineGlobal named => exact goesOn (h.exec_defineGlobal named)
  | setGlobal nonempty named => exact goesOn (h.exec_setGlobal nonempty named)
  | getUpvalue bound => exact goesOn (h.exec_getUpvalue bound)
  | setUpvalue nonempty bound any => exact goesOn (h.exec_setUpvalue nonempty bound any)
  | getProperty named => exact goesOn (h.exec_getProperty named)
  | setProperty named => exact goesOn (h.exec_setProperty named)
  | getSuper named => exact goesOn (h.exec_getSuper named)
  | binary kind => exact goesOn (h.exec_binary kind)
  | unary kind => exact goesOn (h.exec_unary kind)
  | print => exact goesOn h.exec_print
  | call length unshared =>
    have h' := calls length unshared h
    refine Yields.bind h'.yields_peekCallee ?_
    rintro v _ ⟨rfl, sound⟩
    exact h'.yields_callValue goes sound
  | invoke named length unshared =>
    refine Yields.bind (h.yields_name named) ?_
    rintro _ _ ⟨rfl, rfl⟩
    exact (calls length unshared h).yields_invoke goes _
  | superInvoke named length unshared =>
    refine Yields.bind (h.yields_name named) ?_
    rintro _ _ ⟨rfl, rfl⟩
    refine Yields.bind h.yields_popClass ?_
    rintro r m' ⟨sound, h'⟩
    exact (calls length unshared h').yields_invokeFromClass goes sound _
  | closure entry closes count distinct finds =>
    exact goesOn (h.exec_closure ordered entry closes count finds)
  | closeUpvalue => exact goesOn (h.exec_closeUpvalue ordered)
  | makeClass named => exact goesOn (h.exec_makeClass named)
  | inherit => exact goesOn h.exec_inherit
  | method named => exact goesOn (h.exec_method named)

/-- An instruction that has been read leads to a place where its stack may go. -/
lemma flows_yields (h : Active bare c T E f callers below σ m) (ordered : m.Ordered) {i : Instr}
    (flows : Flows T E f.ip σ i) : Yields bare (fun _ m' => Ready bare m') (exec i m) := by
  obtain ⟨slots, g⟩ := σ
  cases i with
  | jump distance =>
    refine Yields.bind h.yields_frame ?_
    rintro _ _ ⟨rfl, rfl⟩
    exact (h.yields_goto _).mono fun _ _ there => there.ready flows
  | jumpIfFalse distance =>
    obtain ⟨nonempty, away, goes⟩ := flows
    obtain ⟨s, rest, rfl⟩ := List.exists_cons_of_ne_nil nonempty
    refine Yields.bind (h.yields_peek (d := 0) rfl) ?_
    rintro v _ ⟨rfl, -, -⟩
    split
    · refine Yields.bind h.yields_frame ?_
      rintro _ _ ⟨rfl, rfl⟩
      exact (h.yields_goto _).mono fun _ _ there => there.ready away
    · exact h.ready goes
  | loop distance =>
    obtain ⟨bound, back⟩ := flows
    refine Yields.bind h.yields_frame ?_
    rintro _ _ ⟨rfl, rfl⟩
    dsimp only
    rw [if_pos bound]
    exact (h.yields_goto _).mono fun _ _ there => there.ready back
  | ret =>
    obtain ⟨k, slots, rfl⟩ := flows
    exact h.exec_ret ordered
  | _ =>
    obtain ⟨τ, execs, goes⟩ := flows
    exact h.exec_yields ordered execs goes

end Active

/-- The machine, with its running call past the next instruction. -/
def past (m : Machine) (f : Frame) (callers : List Frame) (i : Instr) : Machine :=
  { m with frames := { f with ip := f.ip + i.size } :: callers }

lemma fetch_apply (frames : m.frames = f :: callers) {i : Instr}
    (decoded : f.closure.prototype.chunk.instrAt? f.ip = some i)
    (bound : f.ip + i.size ≤ f.closure.prototype.chunk.size) :
    fetch m = .ok i (m.past f callers i) := by
  unfold fetch
  rw [frames]
  dsimp only
  rw [decoded]
  exact if_pos bound

/-- A step executes the next instruction of the running call, if there is one. -/
lemma step_cases (m : Machine) :
    (∃ defect, m.step = .error (.broken defect) m) ∨
      ∃ f callers i, m.frames = f :: callers ∧ f.closure.prototype.chunk.instrAt? f.ip = some i ∧
        m.step = exec i (m.past f callers i) := by
  cases frames : m.frames with
  | nil =>
    refine .inl ⟨.noFrame, ?_⟩
    rw [step, bind_apply, fetch, frames]
  | cons f callers =>
    cases decoded : f.closure.prototype.chunk.instrAt? f.ip with
    | none =>
      refine .inl ⟨.badOpcode, ?_⟩
      rw [step, bind_apply, fetch, frames]
      dsimp only
      rw [decoded]
    | some i =>
      by_cases bound : f.ip + i.size ≤ f.closure.prototype.chunk.size
      · refine .inr ⟨f, callers, i, rfl, decoded, ?_⟩
        rw [step, bind_apply, fetch_apply frames decoded bound]
      · refine .inl ⟨.codeEnds, ?_⟩
        rw [step, bind_apply, fetch, frames]
        dsimp only
        rw [decoded]
        dsimp only
        rw [if_neg bound]

/-- A closure without code has no instruction. -/
lemma fetch_bare (frames : m.frames = f :: callers) (bare : f.closure.Bare) :
    ∃ defect, fetch m = .error (.broken defect) m := by
  unfold fetch
  rw [frames]
  dsimp only
  rw [bare.chunk]
  split
  · exact ⟨_, rfl⟩
  · next i _ =>
    have pos := i.size_pos
    have size : (Chunk.empty : Chunk Constant).size = 0 := rfl
    rw [if_neg (by omega)]
    exact ⟨_, rfl⟩

/-- From a machine that is ready a step leads to one that is ready, unless the run stops.  Only a
closure without code is a defect. -/
theorem step_yields (ready : Ready bare m) (ordered : m.Ordered) :
    Yields bare (fun _ m' => Ready bare m') (step m) := by
  rcases ready with
    ⟨c, T, E, f, callers, below, σ, there, h⟩ | ⟨none, c, S, f, callers, frames, empty, -⟩
  · obtain ⟨i, decoded, bound, flows⟩ := h.calls.fits.flows _ _ there
    have next : Active bare c T E { f with ip := f.ip + i.size } callers below σ
        (m.past f callers i) := {
      frames := rfl
      calls := ⟨h.calls.fits, h.calls.captures⟩
      base := h.base
      suspended := h.suspended
      memory := ⟨h.memory.objects, h.memory.cells, h.memory.stack⟩
      global := h.global }
    rw [step, bind_apply, fetch_apply h.frames decoded bound]
    exact next.flows_yields (ordered.of_same rfl rfl) flows
  · obtain ⟨defect, fetches⟩ := fetch_bare frames empty
    rw [step, bind_apply, fetches]
    exact none

end Machine

end Lox
