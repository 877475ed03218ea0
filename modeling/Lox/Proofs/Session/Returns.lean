import Lox.Proofs.Machine.Frames
import Lox.Proofs.Session.Safety

/-!
# Returns

A call takes the callee and its arguments off the stack and comes back with one value in their place,
whatever runs in between and whatever kind of callee it is (`call_returns`).  Until it comes back, all
calls that are active have their places from that of the callee on, so the values below are out of
reach, except for those that are captured variables.  These may be assigned to, and then the last
assignment counts.  So it is with code of the compiler; other code may leave any number of values
(`made_closure_unbalanced`).
-/

namespace Lox

open Machine

/-- The next step returns this value from a call of the function to the calls `rest`. -/
def Machine.Returning (m : Machine) (w : Closure) (base : Nat) (rest : List Frame) (v : Value) : Prop :=
  ∃ g, m.frames = g :: rest ∧ g.closure = w ∧ g.base = base ∧
    g.closure.prototype.chunk.instrAt? g.ip = some .ret ∧ m.stack.back? = some v

namespace Session

variable {w : Closure} {base : Nat} {rest : List Frame} {s s' : Session} {bare : Prop}

/-! ## The calls of a callee -/

/-- Above the calls `rest` there is one of this function whose places start at `base`, and calls that it has led
to. -/
def Within (w : Closure) (base : Nat) (rest frames : List Frame) : Prop :=
  ∃ inner g, frames = inner ++ g :: rest ∧ g.closure = w ∧ g.base = base ∧ ∀ h ∈ inner, base ≤ h.base

lemma Within.length {frames : List Frame} (within : Within w base rest frames) :
    rest.length < frames.length := by
  obtain ⟨inner, g, rfl, -, -, -⟩ := within
  rw [List.length_append, List.length_cons]
  omega

/-- The running call is one of these, and its places are above. -/
lemma Within.running {frames : List Frame} (within : Within w base rest frames) :
    ∃ f callers, frames = f :: callers ∧ base ≤ f.base := by
  obtain ⟨inner, g, rfl, -, place, above⟩ := within
  cases inner with
  | nil => exact ⟨g, rest, rfl, Nat.le_of_eq place.symm⟩
  | cons h inner => exact ⟨h, _, rfl, above h List.mem_cons_self⟩

/-- A step leads to other calls of the callee, or else back to the calls below. -/
lemma Within.moves {f : Frame} {callers : List Frame} {m m' : Machine} (frames : m.frames = f :: callers)
    (within : Within w base rest (f :: callers)) (moves : Moves m f callers m') :
    Within w base rest m'.frames ∨ m'.frames = rest ∧ m'.stack.size = base + 1 ∧
      ∃ v, m'.stack[base]? = some v ∧ m.Returning w base rest v := by
  obtain ⟨inner, g, split, same, place, above⟩ := within
  cases inner with
  | nil =>
    obtain ⟨rfl, rfl⟩ := List.cons.inj split
    cases moves with
    | goesOn ip frames => exact .inl ⟨[], { f with ip }, frames, same, place, nofun⟩
    | enters w' base' ip higher frames =>
      refine .inl ⟨[⟨w', 0, base'⟩], { f with ip }, frames, same, place, fun h there => ?_⟩
      rw [List.mem_singleton.1 there, ← place]
      exact higher
    | returns decoded top frames' size value =>
      exact .inr ⟨frames', by rw [size, place], _, place ▸ value, f, frames, same, place, decoded, top⟩
  | cons h inner =>
    obtain ⟨rfl, rfl⟩ := List.cons.inj split
    have outer := fun h there => above h (List.mem_cons_of_mem f there)
    have here := above f List.mem_cons_self
    left
    cases moves with
    | goesOn ip frames =>
      exact ⟨{ f with ip } :: inner, g, frames, same, place, List.forall_mem_cons.2 ⟨here, outer⟩⟩
    | enters w' base' ip higher frames =>
      exact ⟨⟨w', 0, base'⟩ :: { f with ip } :: inner, g, frames, same, place,
        List.forall_mem_cons.2 ⟨here.trans higher, List.forall_mem_cons.2 ⟨here, outer⟩⟩⟩
    | returns decoded top frames => exact ⟨inner, g, frames, same, place, outer⟩

/-! ## The values below -/

/-- The machine after so many steps. -/
def after (s : Session) (k : Nat) : Machine := (s.advance k).2.machine

/-- None of the next `k` steps assigns to the captured variable of a place. -/
def Unassigned (s : Session) (k slot : Nat) : Prop := ∀ j < k, ∀ v, ¬ (s.after j).Assigns slot v

/-- Of the next `k` steps, the last one that assigns to the captured variable of a place assigns this
value. -/
def AssignedLast (s : Session) (k slot : Nat) (v : Value) : Prop :=
  ∃ j < k, (s.after j).Assigns slot v ∧ ∀ i, j < i → i < k → ∀ w, ¬ (s.after i).Assigns slot w

/-- The `k` steps to a machine keep the values below a place, but for assignments to captured
variables. -/
def KeptBelow (s : Session) (base k : Nat) (m : Machine) : Prop :=
  ∀ slot < base, s.Unassigned k slot ∧ m.stack[slot]? = s.machine.stack[slot]? ∨
    ∃ v, s.AssignedLast k slot v ∧ m.stack[slot]? = some v

lemma KeptBelow.succ {k : Nat} {m : Machine} (kept : s.KeptBelow base k (s.after k))
    (step : StepKeeps base (s.after k) m) : s.KeptBelow base (k + 1) m := by
  intro slot below
  rcases step slot below with ⟨none, same⟩ | ⟨v, assigns, value⟩
  · rcases kept slot below with ⟨unassigned, old⟩ | ⟨v, ⟨j, before, assigns, last⟩, value⟩
    · refine .inl ⟨fun j bound => ?_, same.trans old⟩
      rcases Nat.lt_succ_iff_lt_or_eq.1 bound with before | rfl
      · exact unassigned j before
      · exact none
    · refine .inr ⟨v, ⟨j, Nat.lt_succ_of_lt before, assigns, fun i later bound => ?_⟩, same.trans value⟩
      rcases Nat.lt_succ_iff_lt_or_eq.1 bound with before' | rfl
      · exact last i later before'
      · exact none
  · exact .inr ⟨v, ⟨k, Nat.lt_succ_self k, assigns, fun i later bound => by omega⟩, value⟩

/-! ## Runs -/

/-- A run that goes on has gone on before. -/
lemma advance_add {j k : Nat} (goesOn : s.advance (j + k) = (none, s')) :
    ∃ s₁, s.advance j = (none, s₁) ∧ s₁.advance k = (none, s') := by
  unfold advance at goesOn ⊢
  rw [run_add] at goesOn
  generalize s.machine.run (s.verbosity.wants .trace) j = result at goesOn ⊢
  obtain ⟨stop, m₁⟩ := result
  cases stop with
  | some stop => exact nomatch (Prod.mk.inj goesOn).1
  | none => exact ⟨_, rfl, goesOn⟩

lemma advance_one (goesOn : s.advance 1 = (none, s')) :
    ∃ m, Journaled s.machine m ∧ m.step = .ok () s'.machine := by
  refine ⟨if s.verbosity.wants .trace then s.machine.noteStep else s.machine, ?_, ?_⟩
  · split
    · exact noteStep_journaled s.machine
    · exact .refl s.machine
  · dsimp only [advance, Machine.run] at goesOn
    split at goesOn
    · next stepped =>
      obtain ⟨-, rfl⟩ := Prod.mk.inj goesOn
      exact stepped
    · exact nomatch (Prod.mk.inj goesOn).1

lemma Journaled.stepKeeps {m m₁ m' : Machine} (journaled : Journaled m m₁)
    (step : StepKeeps base m₁ m') : StepKeeps base m m' := by
  obtain ⟨journal, rfl⟩ := journaled
  exact step

/-- Before a step the machine is ready. -/
lemma Reached.ready_step {m : Machine} (here : Reached (NativeBody.Fair bare) .running s)
    (journaled : Journaled s.machine m) : Ready bare m :=
  @Journaled.fit _ _ _ journaled .running here.fit

variable {f : Frame} {callers : List Frame} {i : Instr} {taken k : Nat}

/-- The next step executes the next instruction, and the stack is high enough for it. -/
lemma advance_executes (here : Reached (NativeBody.Fair bare) .running s)
    (frames : s.machine.frames = f :: callers)
    (next : f.closure.prototype.chunk.instrAt? f.ip = some i) (goesOn : s.advance 1 = (none, s')) :
    f.base + i.reach ≤ s.machine.stack.size ∧ ∃ m, Journaled s.machine m ∧
      exec i (m.past f callers i) = .ok () s'.machine := by
  obtain ⟨m, journaled, step⟩ := advance_one goesOn
  have ready := here.ready_step journaled
  obtain ⟨journal, rfl⟩ := journaled
  obtain ⟨f', callers', i', frames', decoded, reach, step⟩ := ready.executes step
  obtain ⟨rfl, rfl⟩ := List.cons.inj (frames.symm.trans frames')
  obtain rfl := Option.some.inj (next.symm.trans decoded)
  exact ⟨reach, _, ⟨journal, rfl⟩, step⟩

/-- The value that a call has left after `k + 1` steps: the callee has given it in the first of them, or a call of
the function that the callee runs has returned it in the last. -/
inductive Leaves (s : Session) (f : Frame) (callers : List Frame) (i : Instr) (base : Nat) : Nat → Value → Prop
  | atOnce {callee v} (called : s.machine.Callee f.closure.prototype i callee)
      (provides : s.machine.Provides (s.machine.above base) callee v) : Leaves s f callers i base 0 v
  | returned {callee w k v} (called : s.machine.Callee f.closure.prototype i callee) (runs : s.machine.Runs callee w)
      (returning : (s.after k).Returning w base ({ f with ip := f.ip + i.size } :: callers) v) :
      Leaves s f callers i base k v

/-- After `k + 1` steps the call has come back, with its value in the place of the callee and nothing above it. -/
structure CameBack (s : Session) (f : Frame) (callers : List Frame) (i : Instr) (base k : Nat) (m : Machine) :
    Prop where
  frames : m.frames = { f with ip := f.ip + i.size } :: callers
  size : m.stack.size = base + 1
  value : ∃ v, m.stack[base]? = some v ∧ s.Leaves f callers i base k v

/-- The call has not come back: there are calls of the function that the callee runs. -/
def CalledIn (s : Session) (f : Frame) (callers : List Frame) (i : Instr) (base : Nat) (m : Machine) : Prop :=
  ∃ callee w, s.machine.Callee f.closure.prototype i callee ∧ s.machine.Runs callee w ∧
    Within w base ({ f with ip := f.ip + i.size } :: callers) m.frames

/-- The step of the call itself. -/
lemma call_first (here : Reached (NativeBody.Fair bare) .running s)
    (frames : s.machine.frames = f :: callers)
    (next : f.closure.prototype.chunk.instrAt? f.ip = some i) (calls : i.Calls taken)
    (place : base + taken = s.machine.stack.size) (goesOn : s.advance 1 = (none, s')) :
    s.KeptBelow base 1 s'.machine ∧
      (s.CalledIn f callers i base s'.machine ∨ s.CameBack f callers i base 0 s'.machine) := by
  obtain ⟨-, m, ⟨journal, rfl⟩, executes⟩ := advance_executes here frames next goesOn
  obtain ⟨callee, called, entered⟩ :=
    exec_calls (m := Machine.past { s.machine with journal } f callers i) rfl calls place executes
  have called : s.machine.Callee f.closure.prototype i callee :=
    Callee.aside (m := s.machine) called
  refine ⟨?_, ?_⟩
  · have other : ∀ index, i ≠ .setUpvalue index := by
      rintro index rfl
      cases calls
    exact KeptBelow.succ (k := 0) (fun slot below => .inl ⟨nofun, rfl⟩) fun slot below =>
      .inl ⟨not_assigns frames next other slot, entered.kept slot below⟩
  · rcases entered.called with ⟨v, provides, frames', size, value⟩ | ⟨w, runs, frames'⟩
    · exact .inr ⟨frames', size, v, value, .atOnce called (Provides.aside (m := s.machine) provides)⟩
    · exact .inl ⟨callee, w, called, Runs.aside (m := s.machine) runs, [], _, frames', rfl, rfl, nofun⟩

/-- There is a place for the value on the stack. -/
lemma call_place (here : Reached (NativeBody.Fair bare) .running s)
    (frames : s.machine.frames = f :: callers)
    (next : f.closure.prototype.chunk.instrAt? f.ip = some i) (calls : i.Calls taken)
    (goesOn : s.advance 1 = (none, s')) : ∃ base, base + taken = s.machine.stack.size := by
  obtain ⟨reach, -⟩ := advance_executes here frames next goesOn
  have same : i.reach = taken := by cases calls <;> rfl
  rw [same] at reach
  exact ⟨s.machine.stack.size - taken, Nat.sub_add_cancel ((Nat.le_add_left _ _).trans reach)⟩

/-- As long as the call has not come back, there are calls of the callee. -/
lemma call_within (here : Reached (NativeBody.Fair bare) .running s)
    (frames : s.machine.frames = f :: callers)
    (next : f.closure.prototype.chunk.instrAt? f.ip = some i) (calls : i.Calls taken)
    (place : base + taken = s.machine.stack.size) (goesOn : s.advance (k + 1) = (none, s'))
    (inside : ∀ j < k, callers.length + 1 < (s.after (j + 1)).frames.length) :
    s.KeptBelow base (k + 1) s'.machine ∧
      (s.CalledIn f callers i base s'.machine ∨ s.CameBack f callers i base k s'.machine) := by
  induction k generalizing s' with
  | zero => exact call_first here frames next calls place goesOn
  | succ k ih =>
    obtain ⟨s₁, before, last⟩ := advance_add goesOn
    obtain ⟨m, journaled, step⟩ := advance_one last
    have ready := (here.turn (.advance before)).ready_step journaled
    obtain ⟨kept, ⟨callee, w, called, runs, within⟩ | back⟩ := ih before fun j bound =>
      inside j (Nat.lt_succ_of_lt bound)
    · have after : s.after (k + 1) = s₁.machine := by rw [Session.after, before]
      obtain ⟨g, callers', frames', above⟩ := within.running
      have frames'' : m.frames = g :: callers' := by
        obtain ⟨journal, rfl⟩ := journaled
        exact frames'
      obtain ⟨keeps, moves⟩ := ready.moves frames'' step
      rw [frames'] at within
      rw [← after] at kept journaled
      refine ⟨kept.succ (journaled.stepKeeps fun slot below => keeps slot (below.trans_le above)), ?_⟩
      rcases within.moves frames'' moves with inside | ⟨frames', size, v, value, returning⟩
      · exact .inl ⟨callee, w, called, runs, inside⟩
      · refine .inr ⟨frames', size, v, value, .returned called runs ?_⟩
        obtain ⟨journal, rfl⟩ := journaled
        exact returning
    · have deep := inside k (Nat.lt_succ_self k)
      rw [after, before, back.frames] at deep
      exact absurd deep (Nat.lt_irrefl _)

/-- A call that comes back goes on behind the call instruction, with the calls around it as they were and
one value in the place of the values that were taken off: the one that the callee has given or that a call of
its function has returned.  Below that place, every value is the old one if no step assigns to it as to a
captured variable, and otherwise the one assigned last. -/
theorem call_returns (here : Reached (NativeBody.Fair True) .running s)
    (frames : s.machine.frames = f :: callers)
    (next : f.closure.prototype.chunk.instrAt? f.ip = some i) (calls : i.Calls taken)
    (goesOn : s.advance (k + 1) = (none, s'))
    (inside : ∀ j < k, callers.length + 1 < (s.after (j + 1)).frames.length)
    (back : s'.machine.frames.length ≤ callers.length + 1) :
    ∃ base, base + taken = s.machine.stack.size ∧ s.CameBack f callers i base k s'.machine ∧
      s.KeptBelow base (k + 1) s'.machine := by
  obtain ⟨s₁, first, -⟩ := advance_add (Nat.add_comm k 1 ▸ goesOn)
  obtain ⟨base, place⟩ := call_place here frames next calls first
  obtain ⟨kept, ⟨_, _, -, -, within⟩ | came⟩ := call_within here frames next calls place goesOn inside
  · exact absurd within.length (Nat.not_lt_of_le back)
  · exact ⟨base, place, came, kept⟩

/-- A call that assigns to a variable of its caller. -/
theorem call_returns_assigning : ∃ s f s', Reached (NativeBody.Fair True) .running s ∧
    s.machine.frames = [f] ∧ f.closure.prototype.chunk.instrAt? f.ip = some (.call 0) ∧
    s.machine.stack.size = 4 ∧ s.advance 6 = (none, s') ∧ s.CameBack f [] (.call 0) 3 5 s'.machine ∧
    s.KeptBelow 3 6 s'.machine := by
  obtain ⟨s, here, one, next, none, inside, back, size⟩ := (Reached.start .quiet).exists_midway
    (P := fun s => s.machine.frames.length = 1 ∧
      (s.machine.frames.head?.bind fun f => f.closure.prototype.chunk.instrAt? f.ip) = some (.call 0) ∧
      (s.advance 6).1 = none ∧ (∀ j < (5 : Nat), 1 < (s.after (j + 1)).frames.length) ∧
      (s.after 6).frames.length = 1 ∧ s.machine.stack.size = 4)
    (show ((start .quiet).midway "{ var x = 1; fun f() { x = 2; } f(); }" 3).any _ = true by decide +kernel)
  obtain ⟨f, frames⟩ := List.length_eq_one_iff.1 one
  rw [frames] at next
  have six : s.advance 6 = (Option.none, (s.advance 6).2) := Prod.ext none rfl
  obtain ⟨base, place, came, kept⟩ :=
    call_returns (k := 5) here frames next (.call 0) six inside (Nat.le_of_eq back)
  obtain rfl : base = 3 := Nat.succ.inj (place.trans size)
  exact ⟨s, f, _, here, frames, next, size, six, came, kept⟩

/-- With functions of the host that make any closures, a call may take values of its caller off the stack. -/
theorem made_closure_unbalanced : ¬ ∀ {s s' f callers i taken k}, Reached (fun _ => True) .running s →
    s.machine.frames = f :: callers → f.closure.prototype.chunk.instrAt? f.ip = some i → i.Calls taken →
      s.advance (k + 1) = (none, s') → (∀ j < k, callers.length + 1 < (s.after (j + 1)).frames.length) →
        s'.machine.frames.length ≤ callers.length + 1 →
          ∃ base, base + taken = s.machine.stack.size ∧ s'.machine.stack.size = base + 1 := by
  intro balanced
  let code := #[Opcode.pop, .pop, .nil, .ret].map Opcode.toByte
  obtain ⟨s, here, one, next, goesOn, inside, back, size, size'⟩ := exists_hosting
    (P := fun s => s.machine.frames.length = 1 ∧
      (s.machine.frames.head?.bind fun f => f.closure.prototype.chunk.instrAt? f.ip) = some (.call 0) ∧
      (s.advance 5).1 = none ∧ (∀ j < (4 : Nat), 1 < (s.after (j + 1)).frames.length) ∧
      (s.advance 5).2.machine.frames.length ≤ 1 ∧ s.machine.stack.size = 3 ∧ (s.advance 5).2.machine.stack.size = 2)
    (show ((hosting (handOut (.ofCode 0 #[] code))).midway "{ var a = 1; make()(); }" 3).any _ = true by
      decide +kernel)
  obtain ⟨f, frames⟩ := List.length_eq_one_iff.1 one
  rw [frames] at next
  obtain ⟨base, place, same⟩ := balanced (k := 4) here frames next (.call 0) (Prod.ext goesOn rfl) inside back
  obtain rfl : base = 2 := Nat.succ.inj (place.trans size)
  cases size'.symm.trans same

end Session

end Lox
