import Lox.Proofs.Machine.Callees

/-!
# What a step leaves alone

A call starts a frame at the place of the callee (`exec_calls`), a return takes the frame and its places away, and
the other instructions work at the top of the stack (`exec_pops`).  So below the base of the running call nothing
changes, with one exception: a captured variable of a call further down may be assigned to (`Assigns`).  That is
what `Ready.moves` says of a step; it needs only that the code does not reach below its base, which is part of
what is known of a machine that is ready.
-/

namespace Lox.Machine

variable {m m' : Machine}

/-! ## Steps -/

/-- The next step assigns a value to the captured variable that a place of the stack is. -/
def Assigns (m : Machine) (slot : Nat) (v : Value) : Prop :=
  ∃ f callers index cell, m.frames = f :: callers ∧
    f.closure.prototype.chunk.instrAt? f.ip = some (.setUpvalue index) ∧
    f.closure.captured[index.toNat]? = some cell ∧ m.cells[cell]? = some (.opened slot) ∧
    m.stack.back? = some v

/-- The values below a place are as before, but for one that the step assigns to. -/
def StepKeeps (base : Nat) (m m' : Machine) : Prop :=
  ∀ slot < base, (∀ v, ¬ m.Assigns slot v) ∧ m'.stack[slot]? = m.stack[slot]? ∨
    ∃ v, m.Assigns slot v ∧ m'.stack[slot]? = some v

/-- What a step does to the calls: the running one goes on, or another one starts in a place of its stack,
or it returns the value on top to its caller. -/
inductive Moves (m : Machine) (f : Frame) (callers : List Frame) (m' : Machine) : Prop
  | goesOn (ip : Nat) (frames : m'.frames = { f with ip } :: callers)
  | enters (w : Closure) (base ip : Nat) (above : f.base ≤ base)
      (frames : m'.frames = ⟨w, 0, base⟩ :: { f with ip } :: callers)
  | returns {v} (decoded : f.closure.prototype.chunk.instrAt? f.ip = some .ret) (top : m.stack.back? = some v)
      (frames : m'.frames = callers) (size : m'.stack.size = f.base + 1) (value : m'.stack[f.base]? = some v)

/-- A step that goes on has executed the next instruction of the running call. -/
lemma step_executes {a : Unit} (result : m.step = .ok a m') :
    ∃ f callers i, m.frames = f :: callers ∧ f.closure.prototype.chunk.instrAt? f.ip = some i ∧
      exec i (m.past f callers i) = .ok a m' := by
  rcases step_cases m with ⟨_, broken⟩ | ⟨f, callers, i, frames, decoded, step⟩
  · cases broken.symm.trans result
  · exact ⟨f, callers, i, frames, decoded, step.symm.trans result⟩

/-- A machine that is ready reads an instruction that its stack has the shape for, unless the running
closure has no code. -/
lemma Ready.reads {bare : Prop} (ready : Ready bare m) :
    (∃ c T E f callers below σ i, Active bare c T E f callers below σ m ∧ E f.ip = some σ ∧
        f.closure.prototype.chunk.instrAt? f.ip = some i ∧ Flows T E (f.ip + i.size) σ i ∧
        m.step = exec i (m.past f callers i)) ∨
      bare ∧ ∃ defect, m.step = .error (.broken defect) m := by
  rcases ready with
    ⟨c, T, E, f, callers, below, σ, there, h⟩ | ⟨none, c, S, f, callers, frames, empty, -⟩
  · obtain ⟨i, decoded, bound, flows⟩ := h.calls.fits.flows _ _ there
    refine .inl ⟨c, T, E, f, callers, below, σ, i, h, there, decoded, flows, ?_⟩
    rw [step, bind_apply, fetch_apply h.frames decoded bound]
  · obtain ⟨defect, fetches⟩ := fetch_bare frames empty
    refine .inr ⟨none, defect, ?_⟩
    rw [step, bind_apply, fetches]

/-- A machine that is ready and makes a step has read an instruction that its stack is high enough
for. -/
lemma Ready.executes {bare : Prop} {a : Unit} (ready : Ready bare m) (result : m.step = .ok a m') :
    ∃ f callers i, m.frames = f :: callers ∧ f.closure.prototype.chunk.instrAt? f.ip = some i ∧
      f.base + i.reach ≤ m.stack.size ∧ exec i (m.past f callers i) = .ok a m' := by
  rcases ready.reads with ⟨c, T, E, f, callers, below, σ, i, h, -, decoded, flows, step⟩ | ⟨-, _, step⟩
  · refine ⟨f, callers, i, h.frames, decoded, ?_, step.symm.trans result⟩
    have size := h.memory.stack.size
    have reach : i.reach ≤ σ.slots.length := Flows.reach flows
    rw [List.length_append, h.base] at size
    omega
  · exact nomatch step.symm.trans result

/-- An assignment to a captured variable changes the cell, or else the place that the variable is. -/
lemma exec_setUpvalue_ok {f : Frame} {callers : List Frame} {index : UInt8} {a : Unit}
    (frames : m.frames = f :: callers) (result : exec (.setUpvalue index) m = .ok a m') :
    ∃ cell v, f.closure.captured[index.toNat]? = some cell ∧ m.stack.back? = some v ∧
      ((∃ w, m.cells[cell]? = some (.closed w)) ∧
          m' = { m with cells := m.cells.setIfInBounds cell (.closed v) } ∨
        ∃ slot, m.cells[cell]? = some (.opened slot) ∧ slot < m.stack.size ∧
          m' = { m with stack := m.stack.setIfInBounds slot v }) := by
  obtain ⟨cell, found, result⟩ := inspect_ok inferInstance result
  obtain ⟨v, looked, result⟩ := inspect_ok inferInstance result
  have captured : f.closure.captured[index.toNat]? = some cell := by
    unfold capturedCell at found
    obtain ⟨f', here, found⟩ := inspect_ok inferInstance found
    unfold frame at here
    rw [frames] at here
    obtain ⟨rfl, -⟩ := EStateM.Result.ok.inj here
    cases there : f.closure.captured[index.toNat]? with
    | none =>
      rw [there] at found
      exact nomatch found
    | some cell' =>
      rw [there] at found
      exact congrArg some (EStateM.Result.ok.inj found).1
  have top : m.stack.back? = some v := by
    unfold peek at looked
    split at looked
    · next bound =>
      obtain ⟨rfl, -⟩ := EStateM.Result.ok.inj looked
      exact Array.getElem?_eq_getElem _
    · exact nomatch looked
  rw [writeCell_apply] at result
  cases there : m.cells[cell]? with
  | none =>
    rw [there] at result
    exact nomatch result
  | some c =>
    rw [there] at result
    cases c with
    | closed w =>
      obtain ⟨-, rfl⟩ := EStateM.Result.ok.inj result
      exact ⟨cell, v, captured, top, .inl ⟨⟨w, there⟩, rfl⟩⟩
    | opened slot =>
      dsimp only at result
      unfold writeSlot at result
      split at result
      · next bound =>
        obtain ⟨-, rfl⟩ := EStateM.Result.ok.inj result
        exact ⟨cell, v, captured, top, .inr ⟨slot, there, bound, rfl⟩⟩
      · exact nomatch result

/-- Places that keep their values, as long as the step assigns to none. -/
lemma KeepsBelow.step {base : Nat} (kept : KeepsBelow base m m') (assigns : ∀ slot v, ¬ m.Assigns slot v) :
    StepKeeps base m m' :=
  fun slot below => .inl ⟨assigns slot, kept slot below⟩

section Step

variable {bare : Prop} {a : Unit} {f : Frame} {callers : List Frame} {i : Instr}

/-- Only one instruction assigns to captured variables. -/
lemma not_assigns (frames : m.frames = f :: callers)
    (decoded : f.closure.prototype.chunk.instrAt? f.ip = some i) (other : ∀ index, i ≠ .setUpvalue index)
    (slot : Nat) (v : Value) : ¬ m.Assigns slot v := by
  rintro ⟨f', callers', index, cell, frames', decoded', -⟩
  obtain ⟨rfl, rfl⟩ := List.cons.inj (frames.symm.trans frames')
  exact other index (Option.some.inj (decoded.symm.trans decoded'))

lemma plain_moves (plain : i.IsPlain) (reach : f.base + i.reach ≤ m.stack.size)
    (result : exec i (m.past f callers i) = .ok a m') :
    KeepsBelow f.base m m' ∧ Moves m f callers m' := by
  obtain ⟨calls, -, kept⟩ := (exec_shallow plain).shallow result
  obtain ⟨ip, frames⟩ := calls.cons
  refine ⟨fun slot below => kept slot ?_, .goesOn ip frames⟩
  show slot + i.reach < m.stack.size
  omega

lemma setLocal_moves {slot : UInt8} (result : exec (.setLocal slot) (m.past f callers i) = .ok a m') :
    KeepsBelow f.base m m' ∧ Moves m f callers m' := by
  obtain ⟨g, here, result⟩ := inspect_ok inferInstance result
  obtain ⟨v, looked, result⟩ := inspect_ok inferInstance result
  obtain ⟨rfl, -⟩ := EStateM.Result.ok.inj here
  unfold writeSlot at result
  split at result
  · obtain ⟨-, rfl⟩ := EStateM.Result.ok.inj result
    exact ⟨fun place below => Array.getElem?_setIfInBounds_ne (by dsimp only; omega), .goesOn _ rfl⟩
  · exact nomatch result

lemma setUpvalue_moves {index : UInt8} (frames : m.frames = f :: callers)
    (decoded : f.closure.prototype.chunk.instrAt? f.ip = some (.setUpvalue index))
    (result : exec (.setUpvalue index) (m.past f callers (.setUpvalue index)) = .ok a m') :
    StepKeeps f.base m m' ∧ Moves m f callers m' := by
  obtain ⟨cell, v, captured, top, ⟨⟨w, closed⟩, rfl⟩ | ⟨slot, opened, bound, rfl⟩⟩ :=
    exec_setUpvalue_ok rfl result
  · refine ⟨fun slot below => .inl ⟨?_, rfl⟩, .goesOn _ rfl⟩
    rintro v' ⟨f', callers', index', cell', frames', decoded', captured', there, -⟩
    obtain ⟨rfl, rfl⟩ := List.cons.inj (frames.symm.trans frames')
    cases decoded.symm.trans decoded'
    cases captured.symm.trans captured'
    cases closed.symm.trans there
  · refine ⟨fun place below => ?_, .goesOn _ rfl⟩
    by_cases same : place = slot
    · subst same
      refine .inr ⟨v, ⟨f, callers, index, cell, frames, decoded, captured, opened, top⟩, ?_⟩
      exact Array.getElem?_setIfInBounds_self_of_lt bound
    · refine .inl ⟨?_, Array.getElem?_setIfInBounds_ne (Ne.symm same)⟩
      rintro v' ⟨f', callers', index', cell', frames', decoded', captured', there, -⟩
      obtain ⟨rfl, rfl⟩ := List.cons.inj (frames.symm.trans frames')
      cases decoded.symm.trans decoded'
      cases captured.symm.trans captured'
      cases opened.symm.trans there
      exact same rfl

lemma calls_moves {taken : Nat} (calls : i.Calls taken) (reach : f.base + taken ≤ m.stack.size)
    (result : exec i (m.past f callers i) = .ok a m') :
    KeepsBelow f.base m m' ∧ Moves m f callers m' := by
  obtain ⟨base, place⟩ : ∃ base, base + taken = m.stack.size :=
    ⟨m.stack.size - taken, by omega⟩
  obtain ⟨_, -, kept, ⟨_, -, same, -⟩ | ⟨w, -, entered⟩⟩ :=
    exec_calls (m := m.past f callers i) rfl calls place result
  · exact ⟨fun slot below => kept slot (by omega), .goesOn _ same⟩
  · exact ⟨fun slot below => kept slot (by omega), .enters w base _ (by omega) entered⟩

lemma ret_moves (decoded : f.closure.prototype.chunk.instrAt? f.ip = some .ret) (reach : f.base + 1 ≤ m.stack.size)
    (result : exec .ret (m.past f callers .ret) = .ok a m') :
    KeepsBelow f.base m m' ∧ Moves m f callers m' := by
  have top : m.stack.back? = some m.stack[m.stack.size - 1] := Array.getElem?_eq_getElem _
  have result : ret (m.past f callers .ret) = .ok a m' := result
  rw [ret_apply (m := m.past f callers .ret) rfl top] at result
  split at result
  · cases result
  · dsimp only at result
    split at result
    · cases result
    · obtain ⟨-, rfl⟩ := EStateM.Result.ok.inj result
      have popped : f.base ≤ m.stack.pop.size := by
        rw [Array.size_pop]
        omega
      refine ⟨fun slot below => ?_, .returns decoded top rfl ?_ (getElem?_shrink_push_self _ popped)⟩
      · refine (getElem?_shrink_push _ below popped).trans ?_
        rw [Array.getElem?_pop, if_pos (by omega)]
      · show ((m.stack.pop.shrink f.base).push _).size = f.base + 1
        rw [Array.size_push, Array.size_shrink]
        omega

/-- A step changes nothing below the base of the running call, but for captured variables that it assigns
to. -/
lemma Ready.moves (ready : Ready bare m) (frames : m.frames = f :: callers)
    (result : m.step = .ok a m') : StepKeeps f.base m m' ∧ Moves m f callers m' := by
  obtain ⟨f', callers', i, frames', decoded, reach, result⟩ := ready.executes result
  obtain ⟨rfl, rfl⟩ := List.cons.inj (frames.symm.trans frames')
  have spared : (∀ index, i ≠ .setUpvalue index) → KeepsBelow f.base m m' ∧ Moves m f callers m' →
      StepKeeps f.base m m' ∧ Moves m f callers m' :=
    fun other moves => ⟨moves.1.step (not_assigns frames decoded other), moves.2⟩
  cases i with
  | setUpvalue index => exact setUpvalue_moves frames decoded result
  | setLocal => exact spared nofun (setLocal_moves result)
  | call | invoke | superInvoke => exact spared nofun (calls_moves (by constructor) reach result)
  | ret => exact spared nofun (ret_moves decoded reach result)
  | _ => exact spared nofun (plain_moves (by trivial) reach result)

end Step

end Lox.Machine
