import Lox.Proofs.Machine.Failures
import Lox.Proofs.Session.Safety

/-!
# Methods that are called at once

An instruction that calls a property of a receiver does what the property does that is read first and then
called in the receiver's place (`invoke_agrees`, `superInvoke_agrees`): a field that shadows a method,
whatever is in it, and a method, inherited or not, where the method bound to its receiver is not made.
-/

namespace Lox.Machine

variable {α β : Type} {m m' : Machine} {v : Value} {x : String} {index count : UInt8}

/-! ## Reading, then calling -/

/-- Calls the value on top in the place of the receiver below the arguments. -/
def callInPlace (count : UInt8) : Action Unit := do
  replace count.toNat (← pop)
  exec (.call count)

/-- Reads a property of the receiver below the arguments, and calls it in the receiver's place. -/
def getThenCall (index count : UInt8) : Action Unit := do
  push (← peek count.toNat)
  exec (.getProperty index)
  callInPlace count

/-- Reads a method of the class on top for the receiver below the arguments, and calls it in the receiver's
place. -/
def getSuperThenCall (index count : UInt8) : Action Unit := do
  let superclass ← pop
  push (← peek count.toNat)
  push superclass
  exec (.getSuper index)
  callInPlace count

/-- Nothing differs but the number of bound methods that have been made. -/
def SameButBound (m m' : Machine) : Prop := ∃ nextBound, m' = { m with nextBound }

/-- Both actions go on, or stop for the same reason, with the same machine but for bound methods; the second
one may leave a value on top where it has found no property. -/
inductive Agrees : EStateM.Result Stop Machine Unit → EStateM.Result Stop Machine Unit → Prop
  | ok {m m' : Machine} (same : SameButBound m m') : Agrees (.ok () m) (.ok () m')
  | error {stop : Stop} {m m' : Machine} (same : SameButBound m m') : Agrees (.error stop m) (.error stop m')
  | missing {stop : Stop} {m : Machine} (v : Value) :
      Agrees (.error stop m) (.error stop { m with stack := m.stack.push v })

lemma Agrees.refl (result : EStateM.Result Stop Machine Unit) : Agrees result result := by
  cases result with
  | ok a m => exact .ok ⟨m.nextBound, rfl⟩
  | error stop m => exact .error ⟨m.nextBound, rfl⟩

/-! ## The actions -/

lemma bind_of_ok {act : Action α} {f : α → Action β} {a : α} (result : act m = .ok a m') :
    (act >>= f) m = f a m' := by
  rw [bind_apply, result]

lemma bind_of_error {act : Action α} {f : α → Action β} {stop : Stop} (result : act m = .error stop m') :
    (act >>= f) m = .error stop m' := by
  rw [bind_apply, result]

lemma peek_apply {d : Nat} (enough : d < m.stack.size) :
    peek d m = .ok m.stack[m.stack.size - 1 - d] m := dif_pos enough

lemma replace_apply {d : Nat} (enough : d < m.stack.size) (v : Value) :
    replace d v m = .ok () { m with stack := m.stack.setIfInBounds (m.stack.size - 1 - d) v } :=
  if_pos enough

lemma pop_push (m : Machine) (v : Value) : pop { m with stack := m.stack.push v } = .ok v m := by
  unfold pop
  rw [Array.back?_push]
  dsimp only
  rw [Array.pop_push]

lemma peek_push (m : Machine) (v : Value) :
    peek 0 { m with stack := m.stack.push v } = .ok v { m with stack := m.stack.push v } := by
  have enough : 0 < (m.stack.push v).size := by
    rw [Array.size_push]
    exact Nat.succ_pos _
  refine (peek_apply enough).trans ?_
  have top : (m.stack.push v)[(m.stack.push v).size - 1 - 0] = v := by simp
  exact congrArg (EStateM.Result.ok · _) top

/-- A name depends on the running call only. -/
lemma name_of_frames (named : name index m = .ok x m) (frames : m'.frames = m.frames) :
    name index m' = .ok x m' := by
  obtain ⟨c, known, named⟩ := inspect_ok inferInstance named
  obtain ⟨f, here, known⟩ := inspect_ok inferInstance known
  have here' : frame m' = .ok f m' := by
    unfold frame at here ⊢
    rw [frames]
    split at here
    · obtain ⟨rfl, -⟩ := EStateM.Result.ok.inj here
      rfl
    · cases here
  have known' : constant index m' = .ok c m' := by
    refine (bind_of_ok here').trans ?_
    cases entry : f.closure.prototype.chunk.constants[index.toNat]? with
    | none =>
      rw [entry] at known
      cases known
    | some c' =>
      rw [entry] at known
      exact congrArg (EStateM.Result.ok · m') (EStateM.Result.ok.inj known).1
  refine (bind_of_ok known').trans ?_
  cases c with
  | string s => exact congrArg (EStateM.Result.ok · m') (EStateM.Result.ok.inj named).1
  | _ => cases named

/-- There is a running call where a name can be read. -/
lemma running_of_name (named : name index m = .ok x m) : ∃ f callers, m.frames = f :: callers := by
  obtain ⟨c, known, -⟩ := inspect_ok inferInstance named
  obtain ⟨f, here, -⟩ := inspect_ok inferInstance known
  unfold frame at here
  split at here
  · next f callers frames => exact ⟨f, callers, frames⟩
  · cases here

/-- The value in the receiver's place. -/
lemma peek_set (enough : count.toNat < m.stack.size) (v : Value) {m' : Machine}
    (placed : m'.stack = m.stack.setIfInBounds (m.stack.size - 1 - count.toNat) v) :
    peek count.toNat m' = .ok v m' := by
  have size : m'.stack.size = m.stack.size := by rw [placed, Array.size_setIfInBounds]
  have there : m'.stack[m'.stack.size - 1 - count.toNat]? = some v := by
    rw [size, placed]
    exact Array.getElem?_setIfInBounds_self_of_lt (by omega)
  rw [peek_apply (by omega)]
  exact congrArg (EStateM.Result.ok · m') (Array.getElem?_eq_some_iff.1 there).2

/-- A value is called in the place of the receiver. -/
lemma callInPlace_push (enough : count.toNat < m.stack.size) (v : Value) :
    callInPlace count { m with stack := m.stack.push v } =
      callValue v count { m with stack := m.stack.setIfInBounds (m.stack.size - 1 - count.toNat) v } := by
  unfold callInPlace
  rw [bind_of_ok (pop_push m v), bind_of_ok (replace_apply enough v)]
  exact bind_of_ok (peek_set enough v rfl)

/-- Calling a bound method in the receiver's place is calling the method. -/
lemma callInPlace_bound (enough : count.toNat < m.stack.size) (serial : Nat) (w : Closure)
    (there : m.stack[m.stack.size - 1 - count.toNat]? = some v) :
    callInPlace count { m with stack := m.stack.push (.bound serial v w) } = call w count m := by
  rw [callInPlace_push enough]
  refine (bind_of_ok (replace_apply (by rw [Array.size_setIfInBounds]; exact enough) v)).trans ?_
  have same : (m.stack.setIfInBounds (m.stack.size - 1 - count.toNat) (.bound serial v w)).setIfInBounds
      (m.stack.size - 1 - count.toNat) v = m.stack := by
    refine Array.ext_getElem? fun i => ?_
    by_cases here : i = m.stack.size - 1 - count.toNat
    · subst here
      rw [there]
      exact Array.getElem?_setIfInBounds_self_of_lt (by rw [Array.size_setIfInBounds]; omega)
    · rw [Array.getElem?_setIfInBounds_ne (Ne.symm here), Array.getElem?_setIfInBounds_ne (Ne.symm here)]
  rw [Array.size_setIfInBounds, same]

/-- How a method is called does not depend on the bound methods there are. -/
lemma call_agrees (w : Closure) (count : UInt8) (m : Machine) (nextBound : Nat) :
    Agrees (call w count m) (call w count { m with nextBound }) := by
  unfold call
  dsimp only
  split
  · exact .error ⟨nextBound, rfl⟩
  · split
    · exact .error ⟨nextBound, rfl⟩
    · split
      · exact .ok ⟨nextBound, rfl⟩
      · exact .error ⟨nextBound, rfl⟩

lemma method_apply (c : ClassRef) (x : String) (m : Machine) :
    method c x m =
      match m.methods[c.serial]? with
      | none => .error (.broken .badObject) m
      | some methods =>
        match methods.find? x with
        | none => .error (.failed (.undefinedProperty x)) m
        | some w => .ok w m := by
  unfold method methodsOf
  cases there : m.methods[c.serial]? with
  | none =>
    refine bind_of_error ?_
    refine (bind_of_ok (get_apply m)).trans ?_
    rw [there]
    rfl
  | some methods =>
    have known : (do orBroken .badObject (← get).methods[c.serial]? : Action (Table Closure)) m =
        .ok methods m := by
      refine (bind_of_ok (get_apply m)).trans ?_
      rw [there]
      rfl
    refine (bind_of_ok known).trans ?_
    dsimp only
    cases methods.find? x <;> rfl

/-- A method of a class that is bound to a receiver and then called, and one that is called at once. -/
lemma bindMethod_agrees (c : ClassRef) (x : String) (enough : count.toNat < m.stack.size)
    (there : m.stack[m.stack.size - 1 - count.toNat]? = some v) :
    Agrees (invokeFromClass c x count m)
      ((bindMethod c x >>= fun _ => callInPlace count : Action Unit) { m with stack := m.stack.push v }) := by
  have looked := method_apply c x m
  have looked' := method_apply c x { m with stack := m.stack.push v }
  unfold invokeFromClass bindMethod
  simp only [bind_assoc]
  cases table : m.methods[c.serial]? with
  | none =>
    simp only [table] at looked looked'
    rw [bind_of_error looked, bind_of_error looked']
    exact .missing v
  | some methods =>
    cases found : methods.find? x with
    | none =>
      simp only [table, found] at looked looked'
      rw [bind_of_error looked, bind_of_error looked']
      exact .missing v
    | some w =>
      simp only [table, found] at looked looked'
      rw [bind_of_ok looked, bind_of_ok looked', bind_of_ok (pop_push m v)]
      show Agrees _ (callInPlace count { m with
        nextBound := m.nextBound + 1, stack := m.stack.push (.bound m.nextBound v w) })
      rw [callInPlace_bound (m := { m with nextBound := m.nextBound + 1 }) enough _ w there]
      exact call_agrees w count m _

/-! ## Methods and fields of a receiver -/

lemma field?_apply (serial : Nat) (x : String) (m : Machine) :
    field? serial x m =
      match m.fields[serial]? with
      | none => .error (.broken .badObject) m
      | some fields => .ok (fields.find? x) m := by
  unfold field?
  refine (bind_of_ok (get_apply m)).trans ?_
  cases m.fields[serial]? <;> rfl

variable {serial : Nat} {c : ClassRef}

/-- A property of an instance. -/
lemma invoke_instance (named : name index m = .ok x m) (enough : count.toNat < m.stack.size)
    (receiver : m.stack[m.stack.size - 1 - count.toNat] = .inst serial c) :
    Agrees (exec (.invoke index count) m) (getThenCall index count m) := by
  have there : m.stack[m.stack.size - 1 - count.toNat]? = some (.inst serial c) :=
    Array.getElem?_eq_some_iff.2 ⟨by omega, receiver⟩
  have looked := peek_apply enough
  rw [receiver] at looked
  have field := field?_apply serial x m
  have field' := field?_apply serial x { m with stack := m.stack.push (.inst serial c) }
  have named' : name index { m with stack := m.stack.push (.inst serial c) } =
      .ok x { m with stack := m.stack.push (.inst serial c) } := name_of_frames named rfl
  have calls : exec (.invoke index count) m = invoke x count m := bind_of_ok named
  have gets : getThenCall index count m =
      ((readProperty index >>= fun _ => callInPlace count : Action Unit)
        { m with stack := m.stack.push (.inst serial c) }) := bind_of_ok looked
  unfold invoke at calls
  unfold readProperty at gets
  rw [bind_of_ok looked] at calls
  simp only [bind_assoc] at gets
  rw [bind_of_ok (peek_push m _)] at gets
  dsimp only at calls gets
  simp only [bind_assoc] at gets
  rw [bind_of_ok named'] at gets
  cases fields : m.fields[serial]? with
  | none =>
    simp only [fields] at field field'
    rw [calls, gets, bind_of_error field, bind_of_error field']
    exact .missing _
  | some t =>
    simp only [fields] at field field'
    rw [bind_of_ok field] at calls
    rw [bind_of_ok field'] at gets
    rw [calls, gets]
    cases found : t.find? x with
    | none => exact bindMethod_agrees c x enough there
    | some v =>
      dsimp only
      simp only [bind_assoc]
      rw [bind_of_ok (pop_push m _), bind_of_ok (replace_apply enough v)]
      show Agrees _ (callInPlace count { m with stack := m.stack.push v })
      rw [callInPlace_push enough v]
      exact .refl _

/-- Other values have no properties. -/
lemma invoke_other (named : name index m = .ok x m) (enough : count.toNat < m.stack.size)
    (other : ∀ serial c, m.stack[m.stack.size - 1 - count.toNat] ≠ .inst serial c) :
    ∃ m', exec (.invoke index count) m = .error (.failed .methodOfNoInstance) m ∧
      getThenCall index count m = .error (.failed .propertyOfNoInstance) m' := by
  have looked := peek_apply enough
  generalize m.stack[m.stack.size - 1 - count.toNat] = v at looked other
  have calls : exec (.invoke index count) m = invoke x count m := bind_of_ok named
  have gets : getThenCall index count m =
      ((readProperty index >>= fun _ => callInPlace count : Action Unit)
        { m with stack := m.stack.push v }) := bind_of_ok looked
  unfold invoke at calls
  unfold readProperty at gets
  rw [bind_of_ok looked] at calls
  simp only [bind_assoc] at gets
  rw [bind_of_ok (peek_push m v)] at gets
  obtain ⟨f, callers, frames⟩ := running_of_name named
  have fails : ∀ m₁ : Machine, m₁.frames = m.frames →
      ∃ m', ((failUnread .propertyOfNoInstance >>= fun _ : Unit => callInPlace count) m₁ =
        .error (.failed .propertyOfNoInstance) m') :=
    fun _ same => ⟨_, bind_of_error (failUnread_apply _ (same.trans frames))⟩
  obtain ⟨m', failed⟩ := fails { m with stack := m.stack.push v } rfl
  cases v with
  | inst serial c => exact absurd rfl (other serial c)
  | _ => exact ⟨m', calls, gets.trans failed⟩

/-- A method of the superclass. -/
lemma superInvoke_agrees (named : name index m = .ok x m) (enough : count.toNat + 1 < m.stack.size) :
    Agrees (exec (.superInvoke index count) m) (getSuperThenCall index count m) := by
  obtain ⟨stack, superclass, split⟩ := Array.eq_push_of_size_ne_zero (show m.stack.size ≠ 0 by omega)
  obtain ⟨m, rfl⟩ : ∃ m₁ : Machine, m = { m₁ with stack := m₁.stack.push superclass } :=
    ⟨{ m with stack }, by rw [← split]⟩
  have room : count.toNat < m.stack.size := by
    rw [Array.size_push] at enough
    omega
  generalize receiver : m.stack[m.stack.size - 1 - count.toNat] = v
  have there : m.stack[m.stack.size - 1 - count.toNat]? = some v :=
    Array.getElem?_eq_some_iff.2 ⟨by omega, receiver⟩
  have looked := peek_apply room
  rw [receiver] at looked
  have named' : name index { m with stack := (m.stack.push v).push superclass } =
      .ok x { m with stack := (m.stack.push v).push superclass } := name_of_frames named rfl
  have popped := pop_push m superclass
  have popped' := pop_push { m with stack := m.stack.push v } superclass
  have calls : exec (.superInvoke index count) { m with stack := m.stack.push superclass } =
      (popClass >>= fun c => invokeFromClass c x count : Action Unit)
        { m with stack := m.stack.push superclass } := bind_of_ok named
  have gets : getSuperThenCall index count { m with stack := m.stack.push superclass } =
      (popClass >>= fun c => bindMethod c x >>= fun _ => callInPlace count : Action Unit)
        { m with stack := (m.stack.push v).push superclass } := by
    unfold getSuperThenCall
    rw [bind_of_ok popped, bind_of_ok looked]
    show ((name index >>= fun x => popClass >>= fun c => bindMethod c x) >>= fun _ => callInPlace count :
      Action Unit) { m with stack := (m.stack.push v).push superclass } = _
    simp only [bind_assoc]
    exact bind_of_ok named'
  unfold popClass at calls gets
  simp only [bind_assoc] at calls gets
  rw [bind_of_ok popped] at calls
  rw [bind_of_ok popped'] at gets
  rw [calls, gets]
  cases superclass with
  | cls c => exact bindMethod_agrees c x room there
  | _ => exact .missing v

/-! ## Steps -/

variable {bare : Prop} {f : Frame} {callers : List Frame} {i : Instr}

/-- A name that the code refers to is there. -/
lemma Active.named {c : Census} {T : Surroundings} {E : Shapes} {below : List Slot} {σ : Shape}
    (h : Active bare c T E f callers below σ m) (there : T.IsName index x) (i : Instr) :
    name index (m.past f callers i) = .ok x (m.past f callers i) := by
  obtain ⟨object, entry, rfl⟩ := there
  rw [h.calls.fits.pool] at entry
  have known : constant index (m.past f callers i) = .ok (.string object) (m.past f callers i) := by
    have running : frame (m.past f callers i) = .ok { f with ip := f.ip + i.size } (m.past f callers i) := rfl
    refine (bind_of_ok running).trans ?_
    rw [entry]
    rfl
  exact bind_of_ok known

/-- A machine that is ready to call a property has a name for it, a receiver and the arguments. -/
lemma Ready.invokes (ready : Ready bare m) (frames : m.frames = f :: callers)
    (decoded : f.closure.prototype.chunk.instrAt? f.ip = some (.invoke index count))
    (sound : ∀ defect m', m.step ≠ .error (.broken defect) m') :
    ∃ x, name index (m.past f callers (.invoke index count)) = .ok x (m.past f callers (.invoke index count)) ∧
      count.toNat < m.stack.size ∧
      m.step = exec (.invoke index count) (m.past f callers (.invoke index count)) := by
  rcases ready.reads with ⟨c, T, E, f', callers', below, σ, i, h, -, decoded', flows, step⟩ | ⟨-, defect, step⟩
  · obtain ⟨rfl, rfl⟩ := List.cons.inj (h.frames.symm.trans frames)
    obtain rfl := Option.some.inj (decoded'.symm.trans decoded)
    have size := h.memory.stack.size
    have reach : count.toNat + 1 ≤ σ.slots.length := flows.reach
    rw [List.length_append] at size
    obtain ⟨τ, execs, -⟩ := flows
    cases execs with
    | invoke named => exact ⟨_, h.named named _, by omega, step⟩
    | literal kind | binary kind | unary kind => cases kind
  · exact absurd step (sound defect m)

/-! ## Agreement -/

/-- Calling a property of a receiver agrees with reading it and calling it in the receiver's place, if the
receiver is an instance; for other receivers both fail, and tell so differently.  Likewise for a method of
the superclass. -/
theorem invoke_agrees (named : name index m = .ok x m) (enough : count.toNat < m.stack.size) :
    (∀ serial c, m.stack[m.stack.size - 1 - count.toNat] = .inst serial c →
        Agrees (exec (.invoke index count) m) (getThenCall index count m)) ∧
      ((∀ serial c, m.stack[m.stack.size - 1 - count.toNat] ≠ .inst serial c) →
        ∃ m', exec (.invoke index count) m = .error (.failed .methodOfNoInstance) m ∧
          getThenCall index count m = .error (.failed .propertyOfNoInstance) m') ∧
      (count.toNat + 1 < m.stack.size →
        Agrees (exec (.superInvoke index count) m) (getSuperThenCall index count m)) :=
  ⟨fun _ _ receiver => invoke_instance named enough receiver, invoke_other named enough,
    superInvoke_agrees named⟩

/-- A method that is called with an argument, in a run that has come there. -/
theorem invoke_agrees_method : ∃ s f, Session.Reached (NativeBody.Fair False) .running s ∧
    s.machine.frames = [f] ∧ f.closure.prototype.chunk.instrAt? f.ip = some (.invoke 1 1) ∧
    Agrees s.machine.step (getThenCall 1 1 (s.machine.past f [] (.invoke 1 1))) := by
  obtain ⟨s, here, one, next, receiver, size⟩ := (Session.Reached.start .quiet).exists_midway
    (P := fun s => s.machine.frames.length = 1 ∧
      (s.machine.frames.head?.bind fun f => f.closure.prototype.chunk.instrAt? f.ip) = some (.invoke 1 1) ∧
      s.machine.stack[1]?.map (·.same (.inst 0 ⟨0, "A"⟩)) = some true ∧ s.machine.stack.size = 3)
    (show ((Session.start .quiet).midway "class A { m(x) { return x; } } A().m(nil);" 9).any _ = true by decide +kernel)
  obtain ⟨f, frames⟩ := List.length_eq_one_iff.1 one
  rw [frames] at next
  obtain ⟨x, named, enough, step⟩ := Ready.invokes here.fit frames next here.step_sound
  obtain ⟨v, there, same⟩ := Option.map_eq_some_iff.1 receiver
  obtain ⟨serial, c, rfl⟩ : ∃ serial c, v = .inst serial c := by
    cases v with
    | inst serial c => exact ⟨serial, c, rfl⟩
    | _ => cases same
  have receiver' : s.machine.stack[s.machine.stack.size - 1 - (1 : UInt8).toNat] = .inst serial c := by
    obtain ⟨_, value⟩ := Array.getElem?_eq_some_iff.1 there
    simp only [size]
    exact value
  refine ⟨s, f, here, frames, next, ?_⟩
  rw [step]
  exact (invoke_agrees named enough).1 serial c receiver'

end Lox.Machine
