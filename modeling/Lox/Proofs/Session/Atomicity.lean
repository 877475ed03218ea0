import Lox.Proofs.Session.Locals

/-!
# Failed steps

A step that fails is as good as not done (`failed_step_unharmed`): what there is besides the stack is as
before, but for the place that the running call has reached in its code and instances that nothing but the
stack can refer to, and on the stack no variable that is in scope has changed.  So neither has any variable
that a closure has captured (`failed_valueOf?`).  What is said of the stack needs code that comes from the
compiler (`made_closure_harms`).
-/

namespace Lox

open Machine

variable {bare : Prop} {m m' : Machine} {e : RuntimeError}

/-- All is as before but the stack and where the running call is in its code. -/
structure Machine.Untouched (m m' : Machine) : Prop where
  /-- In particular, globals, string objects, methods, cells, open cells and the journal are the same. -/
  rest : m' = { m with frames := m'.frames, stack := m'.stack, fields := m'.fields, hostCalls := m'.hostCalls }
  frames : ∃ f callers ip, m.frames = f :: callers ∧ m'.frames = { f with ip } :: callers
  /-- All instances have the fields that they had. -/
  fields : ∀ serial < m.fields.size, m'.fields[serial]? = m.fields[serial]?
  /-- Functions of the host may remember one more call, but forget none. -/
  hostCalls : m.hostCalls.toList <+: m'.hostCalls.toList

/-- On the stack, too, all is as before but temporary values. -/
structure Machine.Unharmed (m m' : Machine) : Prop extends m.Untouched m' where
  locals : ∀ slot, m.IsLocal slot → slot < m.stack.size ∧ m'.stack[slot]? = m.stack[slot]?
  /-- Slot zero of every call is one of these places. -/
  slotZero : ∀ g ∈ m.frames, m.IsLocal g.base

namespace Machine

/-- A machine that is ready and fails has read an instruction, and leaves the values that it would not have
taken off. -/
lemma Ready.fails (ready : Ready bare m) (failed : m.step = .error (.failed e) m') :
    ∃ c T E f callers below σ i, Active bare c T E f callers below σ m ∧ E f.ip = some σ ∧
      f.closure.prototype.chunk.instrAt? f.ip = some i ∧ Flows T E (f.ip + i.size) σ i ∧
      exec i (m.past f callers i) = .error (.failed e) m' ∧
      Aborted i.pops i.skips e (m.past f callers i) m' := by
  rcases ready.reads with ⟨c, T, E, f, callers, below, σ, i, h, there, decoded, flows, step⟩ | ⟨-, _, step⟩
  · exact ⟨c, T, E, f, callers, below, σ, i, h, there, decoded, flows,
      step.symm.trans failed, (exec_aborts i).aborted (step.symm.trans failed)⟩
  · exact nomatch step.symm.trans failed

lemma untouched_of_fails (failed : m.step = .error (.failed e) m') : m.Untouched m' := by
  obtain ⟨f, callers, i, active, -, -, rest, frames, fields, hostCalls, -⟩ := step_aborts failed
  refine ⟨?_, ⟨f, callers, f.ip + i.size - e.unread, active, frames⟩, fun serial bound => ?_, hostCalls⟩
  · rw [rest]
    rfl
  · obtain ⟨more, split⟩ := fields
    have inside : serial < m.fields.toList.length := bound
    have old : (m.fields.toList ++ more)[serial]? = m.fields.toList[serial]? :=
      List.getElem?_append_left inside
    rw [← Array.getElem?_toList, ← split]
    exact old.trans Array.getElem?_toList

lemma Ready.unharmed (ready : Ready bare m) (waiting : Waiting m.frames)
    (failed : m.step = .error (.failed e) m') : m.Unharmed m' := by
  obtain ⟨c, T, E, f, callers, below, σ, i, h, there, decoded, -, -, aborted⟩ := ready.fails failed
  refine ⟨untouched_of_fails failed, fun slot isLocal => ?_, fun g active => h.isLocal_base there waiting active⟩
  have lower := isLocal.below h there decoded waiting
  exact ⟨by omega, aborted.stack slot lower⟩

/-- No captured variable has changed. -/
lemma Ready.failed_valueOf? (ready : Ready bare m) (failed : m.step = .error (.failed e) m') (cell : Nat) :
    m'.cells = m.cells ∧ m'.openCells = m.openCells ∧ m'.valueOf? cell = m.valueOf? cell := by
  obtain ⟨c, T, E, f, callers, below, σ, i, h, there, decoded, flows, fails, aborted⟩ := ready.fails failed
  obtain ⟨-, rest, -, -, -, stack⟩ := aborted
  have cells : m'.cells = m.cells := by rw [rest]; rfl
  refine ⟨cells, by rw [rest]; rfl, ?_⟩
  cases here : m.cells[cell]? with
  | none => rw [valueOf?, valueOf?, cells, here]
  | some content =>
    cases content with
    | closed v => rw [valueOf?_closed here, valueOf?_closed (cells ▸ here)]
    | opened slot =>
      have other : i ≠ .closeUpvalue := by
        rintro rfl
        rw [exec] at fails
        exact Sure.sound inferInstance fails
      rw [valueOf?_opened here, valueOf?_opened (cells ▸ here)]
      exact stack slot (h.open_below flows other here)

end Machine

namespace Session

variable {s : Session} {Admitted : NativeBody → Prop}

/-- An instruction that fails leaves everything besides the stack as it was, whatever the program and the functions
of the host, which have no way to change what they are given.  If these make no closures but copies and those over
functions that capture nothing, then on the stack it changes nothing but temporary values. -/
theorem failed_step_unharmed (here : Reached Admitted .running s) (failed : s.machine.step = .error (.failed e) m') :
    s.machine.Untouched m' ∧ ((∀ body, Admitted body → body.Fair True) → s.machine.Unharmed m') :=
  ⟨untouched_of_fails failed, fun fair => Ready.unharmed (here.mono fair).fit (here.mono fair).waiting failed⟩

/-- A class is called with too few arguments, when there is already an instance in its place. -/
theorem failed_step_unharmed_class : ∃ s m', Reached (NativeBody.Fair True) .running s ∧
    s.machine.step = .error (.failed (.arityMismatch 1 0)) m' ∧
    s.machine.fields.size < m'.fields.size ∧ s.machine.Unharmed m' := by
  obtain ⟨s, here, stopped, grown⟩ := (Reached.start .quiet).exists_midway
    (P := fun s => stop? s.machine.step = some (.failed (.arityMismatch 1 0)) ∧
      s.machine.fields.size < (left s.machine.step).fields.size)
    (show ((start .quiet).midway "class A { init(x) { } } { var a = 1; A(); }" 8).any _ = true by decide +kernel)
  have failed := eq_error_of_stop? stopped
  exact ⟨s, _, here, failed, grown, (failed_step_unharmed here failed).2 fun _ => id⟩

/-- With functions of the host that make any closures, an instruction that fails may take a variable of the caller
off the stack. -/
theorem made_closure_harms : ∃ s m' e, Reached (fun _ => True) .running s ∧ s.machine.step = .error (.failed e) m' ∧
    s.machine.frames.map Frame.base = [2, 0] ∧ (∃ c, s.machine.stack[1]? = some (.cls c)) ∧ m'.stack[1]? = none ∧
    ¬ s.machine.Unharmed m' := by
  let code := #[Opcode.pop.toByte, Opcode.getSuper.toByte, 0]
  obtain ⟨s, here, failed, bases, declared, size, gone⟩ := exists_hosting
    (P := fun s => stop? s.machine.step = some (.failed (.undefinedProperty "x")) ∧
      s.machine.frames.map Frame.base = [2, 0] ∧
      s.machine.stack[1]?.map (·.same (.cls ⟨0, "A"⟩)) = some true ∧ s.machine.stack.size = 2 ∧
      (left s.machine.step).stack.size = 1)
    (show ((hosting (handOut (.ofCode 0 #[.string ⟨0, "x"⟩] code))).midway "{ class A {} make()(); }" 7).any _ = true by
      decide +kernel)
  have failed := eq_error_of_stop? failed
  refine ⟨s, _, _, here, failed, bases, exists_class declared, Array.getElem?_eq_none gone.le, fun unharmed => ?_⟩
  -- Not even slot zero of the running call is left.
  obtain ⟨f, callers, frames, base, -⟩ := List.map_eq_cons_iff.1 bases
  have bound := (unharmed.locals _ (unharmed.slotZero f (frames ▸ List.mem_cons_self))).1
  rw [base, size] at bound
  exact Nat.lt_irrefl _ bound

end Session

end Lox
