import Lox.Proofs.Machine.Histories
import Lox.Proofs.Machine.Variables

/-!
# Code that is gone through in one go

A call that has neither calls nor jumps ahead of it goes through its instructions one after the other
(`Through`), whatever becomes of the clock and the journal between the steps.  What comes of the
instructions of a class is spelled out here: they do not fail, but for the look-up of a global and for
a superclass that is no class.
-/

namespace Lox.Machine

variable {m m' : Machine} {f : Frame} {callers : List Frame} {i : Instr} {is : List Instr} {o : Nat}
  {h : History} {index : UInt8} {v u : Value} {stop : Stop}

/-! ## Steps -/

lemma step_ok (frames : m.frames = f :: callers) (decoded : f.closure.prototype.chunk.instrAt? f.ip = some i)
    {a : Unit} (result : m.step = .ok a m') : exec i (m.past f callers i) = .ok a m' := by
  obtain ⟨f', callers', j, frames', decoded', executes⟩ := step_executes result
  obtain ⟨rfl, rfl⟩ := List.cons.inj (frames.symm.trans frames')
  obtain rfl := Option.some.inj (decoded.symm.trans decoded')
  exact executes

lemma step_error (frames : m.frames = f :: callers) (decoded : f.closure.prototype.chunk.instrAt? f.ip = some i)
    (result : m.step = .error stop m') (sound : ∀ defect, stop ≠ .broken defect) :
    exec i (m.past f callers i) = .error stop m' := by
  rcases step_cases m with ⟨defect, broken⟩ | ⟨f', callers', j, frames', decoded', step⟩
  · exact absurd (EStateM.Result.error.inj (broken.symm.trans result)).1.symm (sound defect)
  · obtain ⟨rfl, rfl⟩ := List.cons.inj (frames.symm.trans frames')
    obtain rfl := Option.some.inj (decoded.symm.trans decoded')
    exact step.symm.trans result

/-- An instruction that never fails and is no return goes on. -/
lemma exec_goesOn (sure : Sure (exec i)) (other : i ≠ .ret) (result : exec i m = .error stop m')
    (sound : ∀ defect, stop ≠ .broken defect) : False := by
  cases stop with
  | finished => exact other (exec_finished result)
  | failed e => exact sure.sound result
  | broken defect => exact sound defect rfl

lemma happening?_eq (frames : m.frames = f :: callers)
    (decoded : f.closure.prototype.chunk.instrAt? f.ip = some i) :
    m.happening? m' = i.happening? f m m' := by
  rw [happening?, frames]
  show (f.closure.prototype.chunk.instrAt? f.ip >>= fun i => i.happening? f m m') = _
  rw [decoded]
  rfl

/-! ## Passages -/

/-- The running call goes through instructions from an offset on: `I` holds on the way, `Q` at its end, and
`F` if the run stops before. -/
def Through (f : Frame) (callers : List Frame) (I Q F : History → Machine → Prop) :
    List Instr → Nat → History → Machine → Prop
  | [], _, h, m => Q h m
  | i :: is, o, h, m =>
    m.frames = { f with ip := o } :: callers ∧ f.closure.prototype.chunk.instrAt? o = some i ∧ I h m ∧
      ∀ journal now,
        (∀ m', step { m with journal, now } = .ok () m' →
          Through f callers I Q F is (o + i.size) ((m.happening? m').toList ++ h) m') ∧
        ∀ stop m', step { m with journal, now } = .error stop m' → (∀ defect, stop ≠ .broken defect) → F h m'

/-- Neither the clock nor the journal matters. -/
def Timeless (P : History → Machine → Prop) : Prop :=
  ∀ {h : History} {m : Machine} (journal : Array Event) (now : Float), P h m → P h { m with journal, now }

section Through

variable {I I' Q Q' F F' A B : History → Machine → Prop}

lemma Through.aside (asideI : Timeless I) (asideQ : Timeless Q) : Timeless (Through f callers I Q F is o) := by
  intro h m journal now through
  cases is with
  | nil => exact asideQ journal now through
  | cons i is =>
    obtain ⟨frames, decoded, holds, further⟩ := through
    exact ⟨frames, decoded, asideI journal now holds, further⟩

lemma Through.mono (through : Through f callers I Q F is o h m) (inside : ∀ {h m}, I h m → I' h m)
    (finally_ : ∀ {h m}, Q h m → Q' h m) (fallen : ∀ {h m}, F h m → F' h m) :
    Through f callers I' Q' F' is o h m := by
  induction is generalizing o h m with
  | nil => exact finally_ through
  | cons i is ih =>
    obtain ⟨frames, decoded, holds, further⟩ := through
    exact ⟨frames, decoded, inside holds, fun journal now =>
      ⟨fun m' result => ih ((further journal now).1 m' result), fun stop m' result sound =>
        fallen ((further journal now).2 stop m' result sound)⟩⟩

/-- What an instruction does before the others: it leads from `A` to `B`, neither of which speaks of the
calls. -/
lemma Through.cons (decoded : f.closure.prototype.chunk.instrAt? o = some i)
    (aside : ∀ {h m} frames journal now, A h m → A h { m with frames, journal, now })
    (holds : ∀ {h m}, A h m → m.frames = { f with ip := o } :: callers → I h m)
    (does : ∀ {h m m'}, A h m → m.frames = { f with ip := o + i.size } :: callers → exec i m = .ok () m' →
      m'.frames = m.frames ∧ B ((i.happening? { f with ip := o } m m').toList ++ h) m')
    (fails : ∀ {h m stop m'}, A h m → m.frames = { f with ip := o + i.size } :: callers →
      exec i m = .error stop m' → (∀ defect, stop ≠ .broken defect) → F h m')
    (others : ∀ {h m}, B h m → m.frames = { f with ip := o + i.size } :: callers →
      Through f callers I Q F is (o + i.size) h m)
    (here : A h m) (frames : m.frames = { f with ip := o } :: callers) :
    Through f callers I Q F (i :: is) o h m := by
  refine ⟨frames, decoded, holds here frames, fun journal now => ⟨fun m' result => ?_, fun stop m' result sound => ?_⟩⟩
  · obtain ⟨frames', there⟩ := does (aside ({ f with ip := o + i.size } :: callers) journal now here) rfl
      (step_ok (m := { m with journal, now }) frames decoded result)
    have same : m.happening? m' = _ := happening?_eq frames decoded
    rw [same]
    exact others there frames'
  · exact fails (aside ({ f with ip := o + i.size } :: callers) journal now here) rfl
      (step_error (m := { m with journal, now }) frames decoded result sound) sound

/-- The first instruction changes no class, and gives none methods. -/
lemma Through.cons_quiet (decoded : f.closure.prototype.chunk.instrAt? o = some i)
    (quiet : ∀ {g m m'}, i.happening? g m m' = m.founded? m')
    (aside : ∀ {h m} frames journal now, A h m → A h { m with frames, journal, now })
    (holds : ∀ {h m}, A h m → m.frames = { f with ip := o } :: callers → I h m)
    (does : ∀ {h m m'}, A h m → m.frames = { f with ip := o + i.size } :: callers → exec i m = .ok () m' →
      m'.frames = m.frames ∧ m.founded? m' = none ∧ B h m')
    (fails : ∀ {h m stop m'}, A h m → m.frames = { f with ip := o + i.size } :: callers →
      exec i m = .error stop m' → (∀ defect, stop ≠ .broken defect) → F h m')
    (others : ∀ {h m}, B h m → m.frames = { f with ip := o + i.size } :: callers →
      Through f callers I Q F is (o + i.size) h m)
    (here : A h m) (frames : m.frames = { f with ip := o } :: callers) :
    Through f callers I Q F (i :: is) o h m := by
  refine Through.cons decoded aside holds (fun {h m m'} here frames result => ?_) fails others here frames
  obtain ⟨same, nothing, there⟩ := does here frames result
  rw [quiet, nothing]
  exact ⟨same, there⟩

end Through

/-! ## The instructions of a class -/

lemma top?_push {S : Array Value} (stack : m.stack = S.push v) : m.top? 0 = some v := by
  rw [top?, stack, Array.size_push, Nat.add_sub_cancel, Nat.sub_zero, Array.getElem?_push_size]

lemma top?_push_push {S : Array Value} (stack : m.stack = (S.push v).push u) : m.top? 1 = some v := by
  rw [top?, stack, Array.size_push, Array.size_push, Nat.add_sub_cancel, Nat.add_sub_cancel, Array.getElem?_push,
    if_neg (by rw [Array.size_push]; omega), Array.getElem?_push_size]

lemma inherit_happens {S : Array Value} {c r : ClassRef} (stack : m.stack = (S.push (.cls r)).push (.cls c)) :
    Instr.inherit.happening? f m m' = some (.inherits c r) := by
  rw [Instr.happening?, top?_push_push stack, top?_push stack]
  rfl

lemma method_happens {S : Array Value} {c : ClassRef} {w : Closure}
    (stack : m.stack = (S.push (.cls c)).push (.closure w)) :
    (Instr.method index).happening? f m m' =
      some (.defines c (f.closure.prototype.chunk.constantText index) w) := by
  rw [Instr.happening?, top?_push_push stack, top?_push stack]
  rfl

lemma read_happens (place : Compile.Access) : place.read.happening? f m m' = m.founded? m' := by
  cases place <;> rfl

lemma exec_makeClass_ok {a : Unit} (frames : m.frames = f :: callers)
    (result : exec (.makeClass index) m = .ok a m') :
    m' = { m with
      stack := m.stack.push (.cls ⟨m.methods.size, f.closure.prototype.chunk.constantText index⟩)
      methods := m.methods.push .empty } := by
  obtain ⟨x, named, result⟩ := inspect_ok inferInstance result
  obtain ⟨rfl, -⟩ := name_ok frames named
  exact (EStateM.Result.ok.inj result).2.symm

lemma exec_defineGlobal_ok {S : Array Value} {a : Unit} (frames : m.frames = f :: callers) (stack : m.stack = S.push v)
    (result : exec (.defineGlobal index) m = .ok a m') :
    m' = { m with
      stack := S, globals := m.globals.insert (f.closure.prototype.chunk.constantText index) v } := by
  obtain ⟨x, named, result⟩ := inspect_ok inferInstance result
  obtain ⟨rfl, -⟩ := name_ok frames named
  obtain ⟨w, m₁, popped, result⟩ := bind_ok result
  obtain ⟨top, rfl⟩ := pop_ok popped
  obtain ⟨-, rfl⟩ := EStateM.Result.ok.inj result
  rw [stack, Array.back?_push] at top
  obtain rfl := Option.some.inj top
  rw [stack, Array.pop_push]

lemma exec_pop_ok {S : Array Value} {a : Unit} (stack : m.stack = S.push v) (result : exec .pop m = .ok a m') :
    m' = { m with stack := S } := by
  obtain ⟨w, m₁, popped, result⟩ := bind_ok result
  obtain ⟨-, rfl⟩ := pop_ok popped
  obtain ⟨-, rfl⟩ := EStateM.Result.ok.inj result
  rw [stack, Array.pop_push]

lemma modifyMethods_ok {c : ClassRef} {g : Table Closure → Table Closure} {a : Unit}
    (result : modifyMethods c g m = .ok a m') :
    c.serial < m.methods.size ∧ m' = { m with methods := m.methods.modify c.serial g } := by
  unfold modifyMethods at result
  split at result
  · next bound => exact ⟨bound, (EStateM.Result.ok.inj result).2.symm⟩
  · cases result

/-- A class inherits from the one below it on the stack. -/
lemma inherit_ok {a : Unit} (result : exec .inherit m = .ok a m') :
    ∃ c r t, m.stack.back? = some (.cls c) ∧ m.top? 1 = some (.cls r) ∧ m.methods[r.serial]? = some t ∧
      m' = { m with stack := m.stack.pop, methods := m.methods.modify c.serial (·.addAll t) } := by
  obtain ⟨u, looked, result⟩ := inspect_ok inferInstance result
  cases u with
  | cls r =>
    obtain ⟨c, m₁, popped, result⟩ := bind_ok result
    obtain ⟨u, m₂, popped, given⟩ := bind_ok popped
    obtain ⟨top, rfl⟩ := pop_ok popped
    obtain ⟨t, found, result⟩ := inspect_ok inferInstance result
    obtain ⟨-, rfl⟩ := modifyMethods_ok result
    cases u with
    | cls =>
      obtain ⟨rfl, rfl⟩ := EStateM.Result.ok.inj given
      refine ⟨_, r, t, top, peek_ok looked, ?_, rfl⟩
      obtain ⟨m₃, here, found⟩ := inspect_ok inferInstance found
      obtain ⟨rfl, -⟩ := EStateM.Result.ok.inj here
      dsimp only at found
      cases there : m.methods[r.serial]? with
      | none =>
        rw [there] at found
        cases found
      | some t' =>
        rw [there] at found
        exact congrArg some (EStateM.Result.ok.inj found).1
    | _ => cases given
  | _ => cases result

lemma exec_inherit_ok {S : Array Value} {c : ClassRef} {a : Unit} (stack : m.stack = (S.push v).push (.cls c))
    (result : exec .inherit m = .ok a m') :
    ∃ r t, v = .cls r ∧ m.methods[r.serial]? = some t ∧
      m' = { m with stack := S.push v, methods := m.methods.modify c.serial (·.addAll t) } := by
  obtain ⟨c', r, t, top, second, there, rfl⟩ := inherit_ok result
  rw [top?_push_push stack] at second
  rw [stack, Array.back?_push] at top
  obtain rfl := Option.some.inj second
  obtain rfl := Value.cls.inj (Option.some.inj top)
  exact ⟨r, t, rfl, there, by rw [stack, Array.pop_push]⟩

lemma exec_inherit_error (result : exec .inherit m = .error stop m') (sound : ∀ defect, stop ≠ .broken defect) :
    m' = m := by
  rcases bind_error result with looked | ⟨u, m₁, looked, result⟩
  · unfold peek at looked
    split at looked
    · cases looked
    · exact absurd (EStateM.Result.error.inj looked).1.symm (sound _)
  · have same : Inspecting (peek 1) := inferInstance
    obtain rfl := same.same looked
    cases u with
    | cls r =>
      have sure : Sure (popClass >>= fun c => methodsOf r >>= fun t => modifyMethods c (·.addAll t) : Action Unit) :=
        inferInstance
      have goesOn : Avoids .success (popClass >>= fun c => methodsOf r >>= fun t =>
        modifyMethods c (·.addAll t) : Action Unit) :=
        inferInstance
      cases stop with
      | finished => exact absurd trivial (goesOn.avoids result)
      | failed e => exact absurd result sure.sound
      | broken defect => exact absurd rfl (sound defect)
    | _ => exact (EStateM.Result.error.inj result).2.symm

/-- A closure becomes a method of the class below it on the stack. -/
lemma method_ok {a : Unit} (frames : m.frames = f :: callers) (result : exec (.method index) m = .ok a m') :
    ∃ w c, m.stack.back? = some (.closure w) ∧ { m with stack := m.stack.pop }.top? 0 = some (.cls c) ∧
      m' = { m with
        stack := m.stack.pop
        methods := m.methods.modify c.serial
          (·.insert (f.closure.prototype.chunk.constantText index) w) } := by
  obtain ⟨x, named, result⟩ := inspect_ok inferInstance result
  obtain ⟨rfl, -⟩ := name_ok frames named
  obtain ⟨u, m₁, popped, result⟩ := bind_ok result
  obtain ⟨top, rfl⟩ := pop_ok popped
  cases u with
  | closure w =>
    obtain ⟨u, looked, result⟩ := inspect_ok inferInstance result
    have below := peek_ok looked
    cases u with
    | cls c =>
      obtain ⟨-, rfl⟩ := modifyMethods_ok result
      exact ⟨w, c, top, below, rfl⟩
    | _ => cases result
  | _ => cases result

lemma exec_method_ok {S : Array Value} {c : ClassRef} {w : Closure} {a : Unit} (frames : m.frames = f :: callers)
    (stack : m.stack = (S.push (.cls c)).push (.closure w)) (result : exec (.method index) m = .ok a m') :
    m' = { m with
      stack := S.push (.cls c)
      methods := m.methods.modify c.serial
        (·.insert (f.closure.prototype.chunk.constantText index) w) } := by
  obtain ⟨w', c', top, below, rfl⟩ := method_ok frames result
  rw [top?_push (m := { m with stack := m.stack.pop }) (S := S) (v := .cls c) (by rw [stack, Array.pop_push])] at below
  rw [stack, Array.back?_push] at top
  obtain rfl := Value.closure.inj (Option.some.inj top)
  obtain rfl := Value.cls.inj (Option.some.inj below)
  rw [stack, Array.pop_push]

lemma exec_closeUpvalue_ok {S : Array Value} {a : Unit} (stack : m.stack = S.push v)
    (result : exec .closeUpvalue m = .ok a m') :
    ∃ closing openCells, m.partCells S.size m.openCells = some (closing, openCells) ∧
      m' = { m with openCells, cells := closeAll closing m.cells, stack := S } := by
  obtain ⟨m₁, here, result⟩ := inspect_ok inferInstance result
  obtain ⟨rfl, -⟩ := EStateM.Result.ok.inj here
  obtain ⟨u, m₂, closed, result⟩ := bind_ok result
  obtain ⟨w, m₃, popped, result⟩ := bind_ok result
  obtain ⟨-, rfl⟩ := pop_ok popped
  obtain ⟨-, rfl⟩ := EStateM.Result.ok.inj result
  unfold closeCells at closed
  have size : m.stack.size - 1 = S.size := by rw [stack, Array.size_push, Nat.add_sub_cancel]
  rw [size] at closed
  split at closed
  · next parts =>
    obtain ⟨-, rfl⟩ := EStateM.Result.ok.inj closed
    refine ⟨_, _, parts, ?_⟩
    dsimp only
    rw [stack, Array.pop_push]
  · cases closed

/-! ## Variables -/

/-- A variable has a value in a call. -/
def Reads (f : Frame) (m : Machine) : Compile.Access → Value → Prop
  | .slot slot, v => m.stack[f.base + slot.toNat]? = some v
  | .captured index, v => ∃ cell, f.closure.captured[index.toNat]? = some cell ∧ m.valueOf? cell = some v
  | .globalName index, v => ∃ object, f.closure.prototype.chunk.constants[index.toNat]? = some (.string object) ∧
      m.globals.find? object.content = some v

variable {place : Compile.Access}

/-- It does not matter how far the call is. -/
lemma Reads.goto (reads : Reads f m place v) (ip : Nat) : Reads { f with ip } m place v := by
  cases place <;> exact reads

lemma Reads.back {ip : Nat} (reads : Reads { f with ip } m place v) : Reads f m place v := by
  cases place <;> exact reads

lemma name_apply {object : StringObject} (frames : m.frames = f :: callers)
    (there : f.closure.prototype.chunk.constants[index.toNat]? = some (.string object)) :
    name index m = .ok object.content m := by
  have found : constant index m = .ok (.string object) m := by
    have here : frame m = .ok f m := by
      unfold frame
      rw [frames]
    rw [constant, bind_apply, here]
    dsimp only
    rw [there]
    rfl
  rw [name, bind_apply, found]
  rfl

lemma captured_apply {cell : Nat} (frames : m.frames = f :: callers)
    (there : f.closure.captured[index.toNat]? = some cell) : capturedCell index m = .ok cell m := by
  have here : frame m = .ok f m := by
    unfold frame
    rw [frames]
  rw [capturedCell, bind_apply, here]
  dsimp only
  rw [there]
  rfl

/-- A variable that has a value is read. -/
lemma Reads.apply (reads : Reads f m place v) (frames : m.frames = f :: callers) :
    exec place.read m = .ok () { m with stack := m.stack.push v } := by
  cases place with
  | slot slot =>
    have here : frame m = .ok f m := by
      unfold frame
      rw [frames]
    have found : readSlot (f.base + slot.toNat) m = .ok v m := by
      have there : m.stack[f.base + slot.toNat]? = some v := reads
      unfold readSlot
      rw [there]
    rw [Compile.Access.read, exec, bind_apply, here]
    dsimp only
    rw [bind_apply, found]
    rfl
  | captured index =>
    obtain ⟨cell, there, value⟩ := reads
    rw [Compile.Access.read, exec, bind_apply, captured_apply frames there]
    dsimp only
    rw [bind_apply, readCell_of_valueOf? value]
    rfl
  | globalName index =>
    obtain ⟨object, there, found⟩ := reads
    rw [Compile.Access.read, exec, bind_apply, name_apply frames there]
    dsimp only
    rw [readGlobal, bind_apply, get_apply]
    dsimp only
    rw [found]
    rfl

lemma read_ok {a : Unit} (frames : m.frames = f :: callers) (result : exec place.read m = .ok a m') :
    ∃ v, Reads f m place v ∧ m' = { m with stack := m.stack.push v } := by
  have unique : ∀ {v}, Reads f m place v → m' = { m with stack := m.stack.push v } := fun reads =>
    (EStateM.Result.ok.inj (result.symm.trans (reads.apply frames))).2
  suffices ∃ v, Reads f m place v by
    obtain ⟨v, reads⟩ := this
    exact ⟨v, reads, unique reads⟩
  cases place with
  | slot slot =>
    obtain ⟨g, here, result⟩ := inspect_ok inferInstance result
    unfold frame at here
    rw [frames] at here
    obtain ⟨rfl, -⟩ := EStateM.Result.ok.inj here
    obtain ⟨v, found, -⟩ := inspect_ok inferInstance result
    unfold readSlot at found
    split at found
    · next there =>
      obtain ⟨rfl, -⟩ := EStateM.Result.ok.inj found
      exact ⟨_, there⟩
    · cases found
  | captured index =>
    obtain ⟨cell, here, result⟩ := inspect_ok inferInstance result
    obtain ⟨v, found, -⟩ := inspect_ok inferInstance result
    have there : f.closure.captured[index.toNat]? = some cell := by
      obtain ⟨g, running, here⟩ := inspect_ok inferInstance here
      unfold frame at running
      rw [frames] at running
      obtain ⟨rfl, -⟩ := EStateM.Result.ok.inj running
      cases there : f.closure.captured[index.toNat]? with
      | none =>
        rw [there] at here
        cases here
      | some cell' =>
        rw [there] at here
        exact congrArg some (EStateM.Result.ok.inj here).1
    refine ⟨v, cell, there, ?_⟩
    rw [readCell_apply] at found
    cases content : m.cells[cell]? with
    | none =>
      rw [content] at found
      cases found
    | some entry =>
      rw [content] at found
      cases entry with
      | opened slot =>
        rw [valueOf?_opened content]
        dsimp only at found
        unfold readSlot at found
        split at found
        · next there =>
          rw [there]
          exact congrArg some (EStateM.Result.ok.inj found).1
        · cases found
      | closed w =>
        rw [valueOf?_closed content]
        exact congrArg some (EStateM.Result.ok.inj found).1
  | globalName index =>
    obtain ⟨x, named, result⟩ := inspect_ok inferInstance result
    obtain ⟨-, object, there, rfl⟩ := name_ok frames named
    obtain ⟨m₁, here, result⟩ := inspect_ok inferInstance result
    obtain ⟨rfl, -⟩ := EStateM.Result.ok.inj here
    cases found : m.globals.find? object.content with
    | none =>
      rw [found] at result
      cases result
    | some v => exact ⟨v, object, there, found⟩

/-- A variable that cannot be read leaves the machine alone. -/
lemma read_error (result : exec place.read m = .error stop m') (sound : ∀ defect, stop ≠ .broken defect) :
    m' = m := by
  cases place with
  | slot slot =>
    exact (exec_goesOn (by rw [Compile.Access.read, exec]; infer_instance)
      (fun same => by cases same) result sound).elim
  | captured index =>
    exact (exec_goesOn (by rw [Compile.Access.read, exec]; infer_instance)
      (fun same => by cases same) result sound).elim
  | globalName index =>
    rcases bind_error result with named | ⟨x, m₁, named, looked⟩
    · have sure : Sure (name index) := inferInstance
      have goesOn : Avoids .success (name index) := inferInstance
      cases stop with
      | finished => exact absurd trivial (goesOn.avoids named)
      | failed e => exact absurd named sure.sound
      | broken defect => exact absurd rfl (sound defect)
    · have same : Inspecting (name index) := inferInstance
      obtain rfl := same.same named
      unfold readGlobal at looked
      rw [bind_apply, get_apply] at looked
      dsimp only at looked
      cases found : m₁.globals.find? x with
      | some v =>
        rw [found] at looked
        cases looked
      | none =>
        rw [found] at looked
        exact (EStateM.Result.error.inj looked).2.symm

end Lox.Machine
