import Lox.Proofs.Machine.Failures
import Lox.Proofs.Machine.Variables
import Lox.Proofs.Session.Returns

/-!
# The places of local variables

A call that waits for another one stands behind a call instruction, and the callee has the places above
those that the instruction leaves (`Reached.waiting`).  So the variables that are in scope at a place of
the code of a call, by the record of its compilation, have their places on the stack below all that the
instruction there takes off (`Reached.local_below`).
-/

namespace Lox

open Compile Syntax

/-! ## Variables in scope -/

/-- At an offset of the code of a function these variables are in scope, by the record of its
compilation. -/
def Prototype.InScope (p : Prototype) (o : Nat) (scope : List String) : Prop :=
  ∃ Γ start before i after, Compiled p Γ start (before ++ .instr i scope :: after) ∧ o = itemsSize before

/-- Instructions of a row that end at the same offset are the same. -/
lemma ends_unique {before before' after after' : List Item} {i i' : Instr} {scope scope' : List String}
    (same : before ++ .instr i scope :: after = before' ++ .instr i' scope' :: after')
    (ends : itemsSize before + i.size = itemsSize before' + i'.size) : before = before' := by
  have positive := i.size_pos
  have positive' := i'.size_pos
  rcases append_eq_cons_cases same with ⟨between, rfl, -⟩ | ⟨between, rfl, rest⟩
  · simp only [itemsSize, instrs_append, instrs_instr, codeSize_append, codeSize_cons] at ends
    omega
  · cases between with
    | nil => exact (List.append_nil before).symm
    | cons item between =>
      obtain ⟨rfl, -⟩ := List.cons.inj rest
      simp only [itemsSize, instrs_append, instrs_instr, codeSize_append, codeSize_cons] at ends
      omega

variable {p : Prototype} {o o' h : Nat} {i i' : Instr} {scope : List String}

/-- No variable in scope is taken off the stack. -/
lemma Prototype.InScope.pops (inScope : p.InScope o scope) (decoded : p.chunk.instrAt? o = some i)
    (reaches : Reaches p o h) : scope.length + i.pops ≤ h := by
  obtain ⟨Γ, start, before, j, after, compiled, rfl⟩ := inScope
  have split : instrs (before ++ .instr j scope :: after) = instrs before ++ j :: instrs after :=
    instrs_append _ _
  obtain rfl := Option.some.inj (decoded.symm.trans (compiled.decoded split))
  exact compiled.disciplined.pops rfl reaches

/-- An instruction that has been reached is found by where it ends. -/
lemma Prototype.InScope.ends (inScope : p.InScope o scope) (decoded : p.chunk.instrAt? o = some i)
    (decoded' : p.chunk.instrAt? o' = some i') (reaches : Reaches p o' h)
    (ends : o + i.size = o' + i'.size) : o = o' := by
  obtain ⟨Γ, start, before, j, after, compiled, rfl⟩ := inScope
  have split : instrs (before ++ .instr j scope :: after) = instrs before ++ j :: instrs after :=
    instrs_append _ _
  obtain rfl := Option.some.inj (decoded.symm.trans (compiled.decoded split))
  obtain ⟨before', j', scope', after', row, rfl, decoded''⟩ := compiled.disciplined.stays reaches
  obtain rfl := Option.some.inj (decoded'.symm.trans decoded'')
  rw [ends_unique row ends]

/-- Wherever control flow comes to, the record tells the variables in scope, one of which is slot zero. -/
lemma Compile.Compiled.inScope {Γ : Context} {start : List Local} {items : List Item}
    (compiled : Compiled p Γ start items) (reaches : Reaches p o h) :
    ∃ scope, p.InScope o scope ∧ 0 < scope.length := by
  obtain ⟨before, i, scope, after, rfl, place, -⟩ := compiled.disciplined.stays reaches
  obtain ⟨zero, -, tidy⟩ := compiled.tidy
  have last : scope.getLast? = some zero :=
    tidy.slotZero (.instr i scope) (List.mem_append_right _ List.mem_cons_self)
  refine ⟨scope, ⟨Γ, start, before, i, after, compiled, place⟩, List.length_pos_iff.2 ?_⟩
  rintro rfl
  exact nomatch last

/-! ## Calls that wait -/

lemma Instr.Calls.pops {taken : Nat} (calls : i.Calls taken) : i.pops = taken := by
  cases calls <;> rfl

/-- The call stands behind a call instruction, which has left it `base - g.base` values. -/
def Frame.Waits (g : Frame) (base : Nat) : Prop :=
  ∃ o i taken k, g.closure.prototype.chunk.instrAt? o = some i ∧ g.ip = o + i.size ∧ i.Calls taken ∧
    base = g.base + k ∧ Reaches g.closure.prototype o (k + taken)

/-- All calls but the running one wait for the one above. -/
def Waiting : List Frame → Prop
  | f :: g :: callers => g.Waits f.base ∧ Waiting (g :: callers)
  | _ => True

lemma Waiting.tail {f : Frame} {callers : List Frame} (waiting : Waiting (f :: callers)) :
    Waiting callers := by
  cases callers with
  | nil => trivial
  | cons g callers => exact waiting.2

/-- Wherever the running call is in its code, the others wait. -/
lemma Waiting.goto {f : Frame} {callers : List Frame} (waiting : Waiting (f :: callers)) (ip : Nat) :
    Waiting ({ f with ip } :: callers) := by
  cases callers with
  | nil => trivial
  | cons g callers => exact waiting

/-- A call that waits does so below the places of the running call. -/
lemma Waiting.below {f g : Frame} {callers : List Frame} (waiting : Waiting (f :: callers))
    (there : g ∈ callers) : ∃ base ≤ f.base, g.Waits base := by
  induction callers generalizing f with
  | nil => exact absurd there List.not_mem_nil
  | cons g' callers ih =>
    obtain ⟨waits, rest⟩ := waiting
    rcases List.mem_cons.1 there with rfl | there
    · exact ⟨f.base, Nat.le_refl _, waits⟩
    · obtain ⟨base, below, waits'⟩ := ih rest there
      obtain ⟨_, _, _, k, -, -, -, above, -⟩ := waits
      exact ⟨base, by omega, waits'⟩

namespace Machine

variable {bare : Prop} {m m' : Machine} {a : Unit}

/-- The place belongs to a variable that is in scope in an active call: where the running call is, or at
the instruction of a caller that waits. -/
inductive IsLocal (m : Machine) (slot : Nat) : Prop
  | running {f callers scope} (frames : m.frames = f :: callers)
      (inScope : f.closure.prototype.InScope f.ip scope) (own : f.base ≤ slot)
      (live : slot < f.base + scope.length)
  | waiting {f callers g o i scope} (frames : m.frames = f :: callers) (there : g ∈ callers)
      (decoded : g.closure.prototype.chunk.instrAt? o = some i) (past : g.ip = o + i.size)
      (inScope : g.closure.prototype.InScope o scope) (own : g.base ≤ slot)
      (live : slot < g.base + scope.length)

/-- The places of variables in scope are below all that the next instruction takes off. -/
lemma IsLocal.below {c : Census} {T : Surroundings} {E : Shapes} {f : Frame} {callers : List Frame}
    {below : List Slot} {σ : Shape} {slot : Nat} {i : Instr} (isLocal : m.IsLocal slot)
    (h : Active bare c T E f callers below σ m) (there : E f.ip = some σ)
    (decoded : f.closure.prototype.chunk.instrAt? f.ip = some i) (waiting : Waiting m.frames) :
    slot + i.pops < m.stack.size := by
  have size := h.memory.stack.size
  rw [List.length_append, h.base] at size
  have reaches := h.calls.fits.reaches there
  obtain ⟨Γ, start, items, compiled⟩ := h.calls.fits.compiled
  obtain ⟨scope', inScope', -⟩ := compiled.inScope reaches
  have enough' : scope'.length + i.pops ≤ σ.slots.length := inScope'.pops decoded reaches
  cases isLocal with
  | running frames inScope own live =>
    obtain ⟨rfl, rfl⟩ := List.cons.inj (h.frames.symm.trans frames)
    have enough := inScope.pops decoded reaches
    have height : σ.height = σ.slots.length := rfl
    omega
  | waiting frames caller called past inScope own live =>
    obtain ⟨rfl, rfl⟩ := List.cons.inj (h.frames.symm.trans frames)
    rw [h.frames] at waiting
    obtain ⟨base, lower, o, j, taken, k, called', past', calls, place, reached⟩ := waiting.below caller
    obtain rfl := inScope.ends called called' reached (past.symm.trans past')
    obtain rfl := Option.some.inj (called.symm.trans called')
    have enough := inScope.pops called reached
    rw [calls.pops] at enough
    omega

/-- The calls that wait have code. -/
lemma Suspended.calls {c : Census} {S : List Slot} {callers : List Frame} {g : Frame}
    (suspended : Suspended c S callers) (there : g ∈ callers) : ∃ T E, Calls c g T E := by
  induction suspended with
  | nil => exact absurd there List.not_mem_nil
  | cons calls _ _ _ ih =>
    rcases List.mem_cons.1 there with rfl | there
    · exact ⟨_, _, calls⟩
    · exact ih there

/-- Slot zero of every call belongs to a variable in scope. -/
lemma Active.isLocal_base {c : Census} {T : Surroundings} {E : Shapes} {f g : Frame}
    {callers : List Frame} {below : List Slot} {σ : Shape} (h : Active bare c T E f callers below σ m)
    (there : E f.ip = some σ) (waiting : Waiting m.frames) (active : g ∈ m.frames) :
    m.IsLocal g.base := by
  rw [h.frames] at waiting active
  rcases List.mem_cons.1 active with rfl | caller
  · obtain ⟨Γ, start, items, compiled⟩ := h.calls.fits.compiled
    obtain ⟨scope, inScope, some⟩ := compiled.inScope (h.calls.fits.reaches there)
    exact .running h.frames inScope (Nat.le_refl _) (Nat.lt_add_of_pos_right some)
  · obtain ⟨base, -, o, i, taken, k, decoded, past, -, -, reaches⟩ := waiting.below caller
    obtain ⟨T', E', calls⟩ := Suspended.calls h.suspended caller
    obtain ⟨Γ, start, items, compiled⟩ := calls.fits.compiled
    obtain ⟨scope, inScope, some⟩ := compiled.inScope reaches
    exact .waiting h.frames caller decoded past inScope (Nat.le_refl _) (Nat.lt_add_of_pos_right some)

/-- A return leaves the running call. -/
lemma ret_frames (result : ret m = .ok a m') : m'.frames = m.frames.tail := by
  rcases ret_cases m with ⟨_, _, broken, -⟩ | ⟨f, callers, v, frames, top⟩
  · cases broken.symm.trans result
  · rw [ret_apply frames top] at result
    split at result
    · cases result
    · dsimp only at result
      split at result
      · cases result
      · obtain ⟨-, rfl⟩ := EStateM.Result.ok.inj result
        rfl

/-- A step leads from calls that wait to calls that wait. -/
lemma Ready.waiting (ready : Ready bare m) (waiting : Waiting m.frames) (result : m.step = .ok a m') :
    Waiting m'.frames := by
  rcases ready.reads with ⟨c, T, E, f, callers, below, σ, i, h, there, decoded, flows, step⟩ | ⟨-, _, step⟩
  · rw [step] at result
    rw [h.frames] at waiting
    have size := h.memory.stack.size
    rw [List.length_append, h.base] at size
    have reach := flows.reach
    have same : SameCalls (m.past f callers i).frames m'.frames → Waiting m'.frames := by
      intro same
      obtain ⟨ip, frames⟩ := same.cons
      rw [frames]
      exact waiting.goto ip
    have called : ∀ {taken}, i.Calls taken → taken = i.reach → Waiting m'.frames := by
      rintro taken calls rfl
      obtain ⟨k, height⟩ : ∃ k, σ.height = k + i.reach := ⟨σ.height - i.reach, by omega⟩
      have place : f.base + k + i.reach = m.stack.size := by
        rw [← size, Nat.add_assoc, ← height, Nat.add_comm]
        rfl
      obtain ⟨_, -, -, ⟨_, -, frames, -⟩ | ⟨w, -, frames⟩⟩ :=
        exec_calls (m := m.past f callers i) rfl calls place result
      · rw [frames]
        exact waiting.goto _
      · rw [frames]
        have reaches := h.calls.fits.reaches there
        rw [height] at reaches
        exact ⟨⟨f.ip, i, i.reach, k, decoded, rfl, calls, rfl, reaches⟩, waiting.goto _⟩
    cases i with
    | call | invoke | superInvoke => exact called (by constructor) rfl
    | setLocal =>
      obtain ⟨v, -, -, rfl⟩ := exec_setLocal_ok rfl result
      exact same (.refl _)
    | setUpvalue =>
      obtain ⟨cell, v, -, -, ⟨-, rfl⟩ | ⟨slot, -, -, rfl⟩⟩ := exec_setUpvalue_ok rfl result
      · exact same (.refl _)
      · exact same (.refl _)
    | ret =>
      have frames : m'.frames = callers := ret_frames result
      rw [frames]
      exact waiting.tail
    | _ => exact same ((exec_pops (by trivial)).shallow result).1
  · exact nomatch step.symm.trans result

end Machine

namespace Session

variable {s s' : Session} {bare : Prop}

/-! ## Invariants of runs -/

/-- What every step of a machine that is ready keeps holds after a run, and before its last step. -/
lemma Reached.advance_keeps {P : Machine → Prop} (here : Reached (NativeBody.Fair bare) .running s)
    (aside : ∀ {m m' : Machine}, Journaled m m' → P m → P m')
    (steps : ∀ {m m' : Machine}, Machine.Ready bare m → m.Ordered → P m → m.step = .ok () m' → P m')
    (holds : P s.machine) {fuel : Nat} {stop? : Option Stop} (runs : s.advance fuel = (stop?, s')) :
    After (fun m => (Phase.running.Keeps m ∧ Machine.Ready bare m) ∧ P m) stop? s'.machine := by
  refine advance_stops (fun m m' same ⟨⟨keeps, ready⟩, holds⟩ => ?_) (fun m m' ⟨⟨keeps, ready⟩, holds⟩ step => ?_)
    ⟨⟨here.keeps, here.fit⟩, holds⟩ runs
  · exact ⟨⟨same.keeps keeps, @Journaled.fit _ _ _ same .running ready⟩, aside same holds⟩
  · have yields := Machine.step_yields ready keeps.1
    rw [step] at yields
    exact ⟨⟨step_keeps keeps step, yields⟩, steps ready keeps.1 holds step⟩

/-- What holds at the start of a script and is kept by every step holds in every run. -/
lemma Reached.run_invariant {Invariant : Machine → Prop} (here : Reached (NativeBody.Fair bare) .running s)
    (initially : ∀ {m : Machine} p strings nextPrototype, m.Idle → Invariant (loaded m p strings nextPrototype))
    (aside : ∀ {m : Machine} journal now, Invariant m → Invariant { m with journal, now })
    (steps : ∀ {m m' : Machine}, Machine.Ready bare m → m.Ordered → Invariant m → m.step = .ok () m' →
      Invariant m') : Invariant s.machine := by
  have journaled : ∀ {m m' : Machine}, Journaled m m' → Invariant m → Invariant m' := by
    rintro m _ ⟨journal, rfl⟩ holds
    exact aside journal m.now holds
  refine @Reached.invariant _ _ _ (fun phase s => phase = .running → Invariant s.machine) here nofun
    (fun {phase s phase' s'} here ih turn => ?_) rfl
  cases turn with
  | native | reject | finish => exact nofun
  | load loads =>
    intro _
    have idle : s.machine.Idle := here.keeps
    obtain ⟨p, strings, nextPrototype, -, listed⟩ := load_idle loads idle
    exact journaled listed (initially p strings nextPrototype idle)
  | advance goesOn => exact fun _ => (here.advance_keeps journaled steps (ih rfl) goesOn).2
  | time now => exact fun running => aside s.machine.journal now (ih running)
  | journal => exact fun running => aside #[] s.machine.now (ih running)

/-- In every state of a run all calls but the running one wait for the one above. -/
lemma Reached.waiting (here : Reached (NativeBody.Fair bare) .running s) : Waiting s.machine.frames :=
  @Reached.run_invariant _ _ (fun m => Waiting m.frames) here
    (fun p strings nextPrototype idle => by
      rw [loaded, idle.frames]
      trivial)
    (fun _ _ waiting => waiting) fun ready _ waiting step => ready.waiting waiting step

/-- What every step keeps when all calls wait holds after a run, and before its last step. -/
lemma Reached.advance_waiting {P : Machine → Prop} (here : Reached (NativeBody.Fair bare) .running s)
    (aside : ∀ {m m' : Machine}, Journaled m m' → P m → P m')
    (steps : ∀ {m m' : Machine}, Machine.Ready bare m → m.Ordered → Waiting m.frames → P m → m.step = .ok () m' → P m')
    (holds : P s.machine) {fuel : Nat} {stop? : Option Stop} (runs : s.advance fuel = (stop?, s')) :
    After (fun m => (Phase.running.Keeps m ∧ Machine.Ready bare m) ∧ Waiting m.frames ∧ P m) stop? s'.machine := by
  refine here.advance_keeps (fun same ⟨waiting, holds⟩ => ⟨?_, aside same holds⟩)
    (fun ready ordered ⟨waiting, holds⟩ step =>
      ⟨ready.waiting waiting step, steps ready ordered waiting holds step⟩) ⟨here.waiting, holds⟩ runs
  obtain ⟨journal, rfl⟩ := same
  exact waiting

end Session

end Lox
