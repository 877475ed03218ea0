import Lox.Proofs.Machine.Shallow

/-!
# Callees

A call instruction finds its callee below the arguments, in a field of the instance that is there, or among the
methods of a class (`Callee`).  The callee may run a function (`Runs`), whose call has the places from that of the
callee on.  Otherwise its value is there at once (`Provides`): functions of the host answer, and a class without an
initializer gives a new instance.  In both cases the values below stay as they are (`exec_calls`).
-/

namespace Lox

/-- The instruction is a call, which takes so many values off the stack: the arguments, the callee
below them, and for a method of the superclass the class above them. -/
inductive Instr.Calls : Instr → Nat → Prop
  | call (count : UInt8) : Calls (.call count) (count.toNat + 1)
  | invoke (index count : UInt8) : Calls (.invoke index count) (count.toNat + 1)
  | superInvoke (index count : UInt8) : Calls (.superInvoke index count) (count.toNat + 2)

namespace Machine

/-- The value that has `distance` values above it, if there is one. -/
def top? (m : Machine) (distance : Nat) : Option Value := m.stack[m.stack.size - 1 - distance]?

variable {m m' m'' : Machine} {f : Frame} {callers : List Frame} {index count : UInt8} {v w : Value} {a : Unit}

/-! ## What is found -/

lemma pop_ok (result : pop m = .ok v m') : m.stack.back? = some v ∧ m' = { m with stack := m.stack.pop } := by
  unfold pop at result
  split at result
  · next top =>
    obtain ⟨rfl, rfl⟩ := EStateM.Result.ok.inj result
    exact ⟨top, rfl⟩
  · cases result

lemma peek_ok {d : Nat} (result : peek d m = .ok v m') : m.top? d = some v := by
  unfold peek at result
  split at result
  · obtain ⟨rfl, -⟩ := EStateM.Result.ok.inj result
    exact Array.getElem?_eq_getElem _
  · cases result

lemma popClass_ok {c : ClassRef} (result : popClass m = .ok c m') :
    m.top? 0 = some (.cls c) ∧ m' = { m with stack := m.stack.pop } := by
  obtain ⟨v, m₁, popped, given⟩ := bind_ok result
  obtain ⟨top, rfl⟩ := pop_ok popped
  cases v with
  | cls c' =>
    obtain ⟨rfl, rfl⟩ := EStateM.Result.ok.inj given
    exact ⟨top, rfl⟩
  | _ => cases given

lemma replace_ok {d : Nat} (result : replace d v m = .ok a m') :
    d < m.stack.size ∧ m' = { m with stack := m.stack.setIfInBounds (m.stack.size - 1 - d) v } := by
  unfold replace at result
  split at result
  · next bound => exact ⟨bound, (EStateM.Result.ok.inj result).2.symm⟩
  · cases result

/-- The names of compiled code are strings. -/
lemma name_ok {x : String} (frames : m.frames = f :: callers) (result : name index m = .ok x m') :
    x = f.closure.prototype.chunk.constantText index ∧
      ∃ object, f.closure.prototype.chunk.constants[index.toNat]? = some (.string object) ∧ object.content = x := by
  obtain ⟨c, found, result⟩ := inspect_ok inferInstance result
  obtain ⟨g, here, found⟩ := inspect_ok inferInstance found
  unfold frame at here
  rw [frames] at here
  obtain ⟨rfl, -⟩ := EStateM.Result.ok.inj here
  cases there : f.closure.prototype.chunk.constants[index.toNat]? with
  | none =>
    rw [there] at found
    cases found
  | some c' =>
    rw [there] at found
    obtain ⟨rfl, -⟩ := EStateM.Result.ok.inj found
    cases c' with
    | string object =>
      obtain ⟨rfl, -⟩ := EStateM.Result.ok.inj result
      refine ⟨?_, object, rfl, rfl⟩
      rw [Chunk.constantText, there]
      rfl
    | _ => cases result

lemma methodsOf_ok {c : ClassRef} {t : Table Closure} (result : methodsOf c m = .ok t m') :
    m.methods[c.serial]? = some t := by
  obtain ⟨m₁, here, result⟩ := inspect_ok inferInstance result
  obtain ⟨rfl, -⟩ := EStateM.Result.ok.inj here
  cases there : m.methods[c.serial]? with
  | none =>
    rw [there] at result
    cases result
  | some t' =>
    rw [there] at result
    exact congrArg some (EStateM.Result.ok.inj result).1

lemma field?_ok {serial : Nat} {x : String} {v? : Option Value} (result : field? serial x m = .ok v? m') :
    ∃ t, m.fields[serial]? = some t ∧ v? = t.find? x := by
  obtain ⟨m₁, here, result⟩ := inspect_ok inferInstance result
  obtain ⟨rfl, -⟩ := EStateM.Result.ok.inj here
  obtain ⟨t, found, result⟩ := inspect_ok inferInstance result
  cases there : m.fields[serial]? with
  | none =>
    rw [there] at found
    cases found
  | some t' =>
    rw [there] at found
    obtain ⟨rfl, -⟩ := EStateM.Result.ok.inj found
    exact ⟨t', rfl, (EStateM.Result.ok.inj result).1.symm⟩

/-! ## Callees -/

/-- In a function, the instruction calls this value. -/
inductive Callee (m : Machine) (p : Prototype) : Instr → Value → Prop
  | value {count : UInt8} {v : Value} (there : m.top? count.toNat = some v) : Callee m p (.call count) v
  | field {index count : UInt8} {serial r t} {v : Value} (receiver : m.top? count.toNat = some (.inst serial r))
      (fields : m.fields[serial]? = some t) (found : t.find? (p.chunk.constantText index) = some v) :
      Callee m p (.invoke index count) v
  | method {index count : UInt8} {serial r t methods} {w : Closure}
      (receiver : m.top? count.toNat = some (.inst serial r))
      (fields : m.fields[serial]? = some t) (noField : t.find? (p.chunk.constantText index) = none)
      (table : m.methods[r.serial]? = some methods) (found : methods.find? (p.chunk.constantText index) = some w) :
      Callee m p (.invoke index count) (.closure w)
  | superMethod {index count : UInt8} {r methods} {w : Closure} (top : m.top? 0 = some (.cls r))
      (table : m.methods[r.serial]? = some methods)
      (found : methods.find? (p.chunk.constantText index) = some w) : Callee m p (.superInvoke index count) (.closure w)

/-- The callee runs a function. -/
inductive Runs (m : Machine) : Value → Closure → Prop
  | closure (w : Closure) : Runs m (.closure w) w
  | bound (serial : Nat) (receiver : Value) (w : Closure) : Runs m (.bound serial receiver w) w
  | initializer {c methods} {w : Closure} (table : m.methods[c.serial]? = some methods)
      (found : methods.find? "init" = some w) :
      Runs m (.cls c) w

/-- For these arguments, the callee gives a value at once: what a function of the host makes, or the next instance. -/
inductive Provides (m : Machine) (given : Array Value) : Value → Value → Prop
  | native {f : NativeRef} {body blueprint} (known : m.natives[f.serial]? = some body)
      (answer : body (m.host f.serial) given = .ok blueprint) : Provides m given (.native f) (m.build blueprint).1
  | made {c methods} (table : m.methods[c.serial]? = some methods) (none : methods.find? "init" = none) :
      Provides m given (.cls c) (.inst m.fields.size c)

/-- What is called has nothing to do with the calls and the journal. -/
lemma Callee.aside {p : Prototype} {i : Instr} {frames : List Frame} {journal : Array Event}
    (callee : { m with frames, journal }.Callee p i v) : m.Callee p i v := by
  cases callee with
  | value there => exact .value there
  | field receiver fields found => exact .field receiver fields found
  | method receiver fields noField table found => exact .method receiver fields noField table found
  | superMethod top table found => exact .superMethod top table found

/-- Neither has what it runs. -/
lemma Runs.aside {g : Closure} {stack : Array Value} {frames : List Frame} {journal : Array Event}
    (runs : { m with stack, frames, journal }.Runs v g) : m.Runs v g := by
  cases runs with
  | closure => exact .closure _
  | bound => exact .bound _ _ _
  | initializer table found => exact .initializer table found

/-- Nor what it gives. -/
lemma Provides.aside {given : Array Value} {stack : Array Value} {frames : List Frame} {journal : Array Event}
    (provides : { m with stack, frames, journal }.Provides given w v) : m.Provides given w v := by
  cases provides with
  | @native f body blueprint known answer =>
    have same : ({ m with stack, frames, journal }.build blueprint).1 = (m.build blueprint).1 := by
      cases blueprint <;> rfl
    rw [same]
    exact .native known answer
  | made table none => exact .made table none

/-! ## Calling -/

/-- The values below a place are as before. -/
def KeepsBelow (b : Nat) (m m' : Machine) : Prop := ∀ slot < b, m'.stack[slot]? = m.stack[slot]?

lemma KeepsBelow.trans {b : Nat} (first : KeepsBelow b m m') (second : KeepsBelow b m' m'') :
    KeepsBelow b m m'' :=
  fun slot below => (second slot below).trans (first slot below)

/-- The values above a place. -/
def above (m : Machine) (base : Nat) : Array Value := m.stack.extract (base + 1) m.stack.size

/-- The callee at a place has been called: its value is there, or else its call has started there. -/
structure Entered (base : Nat) (callee : Value) (m m' : Machine) : Prop where
  kept : KeepsBelow base m m'
  called : (∃ v, m.Provides (m.above base) callee v ∧ m'.frames = m.frames ∧ m'.stack.size = base + 1 ∧
      m'.stack[base]? = some v) ∨
    ∃ w, m.Runs callee w ∧ m'.frames = ⟨w, 0, base⟩ :: m.frames

/-- The place of the callee below so many arguments. -/
def calleePlace (m : Machine) (count : UInt8) : Nat := m.stack.size - 1 - count.toNat

lemma call_ok {g : Closure} (result : call g count m = .ok a m') :
    count.toNat < m.stack.size ∧ m' = { m with frames := ⟨g, 0, m.calleePlace count⟩ :: m.frames } := by
  unfold call at result
  dsimp only at result
  split at result
  · cases result
  · split at result
    · cases result
    · split at result
      · next bound => exact ⟨bound, (EStateM.Result.ok.inj result).2.symm⟩
      · cases result

/-- A function is called in the place of a callee that runs it. -/
lemma call_entered {g : Closure} (runs : m.Runs v g) (result : call g count m = .ok a m') :
    Entered (m.calleePlace count) v m m' := by
  obtain ⟨-, rfl⟩ := call_ok result
  exact ⟨fun _ _ => rfl, .inr ⟨g, runs, rfl⟩⟩

/-- The arguments are the same when the callee has been replaced. -/
lemma above_replaced (m : Machine) (base : Nat) (v : Value) :
    { m with stack := m.stack.setIfInBounds base v }.above base = m.above base := by
  unfold above
  refine Array.ext (by simp) fun i _ _ => ?_
  rw [Array.getElem_extract, Array.getElem_extract, Array.getElem_setIfInBounds_ne _ (by omega)]

/-- A callee that has been found in place of another value is called there. -/
lemma Entered.replaced {base : Nat}
    (entered : Entered base w { m with stack := m.stack.setIfInBounds base v } m') : Entered base w m m' := by
  refine ⟨fun slot below => ?_, ?_⟩
  · rw [entered.kept slot below]
    exact Array.getElem?_setIfInBounds_ne (Nat.ne_of_gt below)
  · rcases entered.called with ⟨u, provides, frames, size, value⟩ | ⟨g, runs, frames⟩
    · rw [above_replaced] at provides
      exact .inl ⟨u, provides.aside, frames, size, value⟩
    · exact .inr ⟨g, runs.aside, frames⟩

/-- A value that is put in a place leaves the values below it alone. -/
lemma getElem?_shrink_push {stack : Array Value} {base slot : Nat} (v : Value) (below : slot < base)
    (bound : base ≤ stack.size) : ((stack.shrink base).push v)[slot]? = stack[slot]? := by
  have size : (stack.shrink base).size = base := by
    rw [Array.size_shrink]
    omega
  rw [Array.getElem?_push, size, if_neg (Nat.ne_of_lt below),
    Array.getElem?_eq_getElem (by rw [size]; exact below), Array.getElem_shrink,
    Array.getElem?_eq_getElem (by omega)]

/-- It is the topmost one. -/
lemma getElem?_shrink_push_self {stack : Array Value} {base : Nat} (v : Value) (bound : base ≤ stack.size) :
    ((stack.shrink base).push v)[base]? = some v := by
  have size : (stack.shrink base).size = base := by
    rw [Array.size_shrink]
    omega
  rw [Array.getElem?_push, size, if_pos rfl]

/-- The arguments of a call of so many. -/
def arguments (m : Machine) (count : UInt8) : Array Value :=
  m.stack.extract (m.stack.size - count.toNat) m.stack.size

/-- The machine when a function of the host has answered: the value that is made takes the place of callee and
arguments. -/
def answered (m : Machine) (f : NativeRef) (count : UInt8) (b : Blueprint) : Machine :=
  { (m.build b).2.remember f.serial (m.arguments count) (some (m.build b).1) with
    stack := (m.stack.shrink (m.stack.size - count.toNat - 1)).push (m.build b).1 }

lemma answered_frames (m : Machine) (f : NativeRef) (count : UInt8) (b : Blueprint) :
    (m.answered f count b).frames = m.frames :=
  (make_same (b := b) rfl).1

/-- A function of the host that has been called has answered. -/
lemma callNative_ok {f : NativeRef} (result : callNative f count m = .ok a m') :
    ∃ body blueprint, m.natives[f.serial]? = some body ∧ body (m.host f.serial) (m.arguments count) = .ok blueprint ∧
      m' = m.answered f count blueprint := by
  unfold callNative at result
  split at result
  · exact nomatch result
  · obtain ⟨_, got, result⟩ := inspect_ok inferInstance result
    obtain ⟨rfl, -⟩ := EStateM.Result.ok.inj got
    obtain ⟨body, known, result⟩ := inspect_ok inferInstance result
    have known : m.natives[f.serial]? = some body := by
      cases found : m.natives[f.serial]? with
      | none =>
        rw [found] at known
        exact nomatch known
      | some body' =>
        rw [found] at known
        exact congrArg some (EStateM.Result.ok.inj known).1
    dsimp only at result
    generalize answer : body (m.host f.serial) _ = answer_ at result
    cases answer_ with
    | error =>
      obtain ⟨_, _, -, failed⟩ := bind_ok result
      exact nomatch failed
    | ok blueprint =>
      refine ⟨body, blueprint, known, answer, ?_⟩
      obtain ⟨v, m₂, made, result⟩ := bind_ok result
      obtain ⟨rfl, rfl⟩ := EStateM.Result.ok.inj made
      obtain ⟨_, m₃, remembered, result⟩ := bind_ok result
      obtain ⟨-, rfl⟩ := EStateM.Result.ok.inj remembered
      obtain ⟨_, m₄, cut, result⟩ := bind_ok result
      obtain ⟨-, rfl⟩ := EStateM.Result.ok.inj cut
      obtain ⟨-, rfl⟩ := EStateM.Result.ok.inj result
      have same : (m.build blueprint).2.stack = m.stack := (make_same (b := blueprint) rfl).2
      show ({ (m.build blueprint).2.remember f.serial (m.arguments count) (some (m.build blueprint).1) with
        stack := ((m.build blueprint).2.stack.shrink (m.stack.size - count.toNat - 1)).push (m.build blueprint).1 } :
          Machine) = _
      rw [same]
      rfl

/-- If it has not, it is at most remembered that it was called. -/
lemma callNative_error {f : NativeRef} {stop : Stop} (result : callNative f count m = .error stop m') :
    m' = m ∨ m' = m.remember f.serial (m.arguments count) none := by
  unfold callNative at result
  split at result
  · exact .inl (EStateM.Result.error.inj result).2.symm
  · cases known : m.natives[f.serial]? with
    | none =>
      have stopped : (orBroken .badObject m.natives[f.serial]? : Action NativeBody) m =
        .error (.broken .badObject) m := by
        rw [known]
        rfl
      simp only [bind_apply, get_apply, stopped] at result
      exact .inl (EStateM.Result.error.inj result).2.symm
    | some body =>
      have found : (orBroken .badObject m.natives[f.serial]? : Action NativeBody) m = .ok body m := by
        rw [known]
        rfl
      simp only [bind_apply, get_apply, found] at result
      generalize body (m.host f.serial) _ = answer at result
      cases answer with
      | error => exact .inr (EStateM.Result.error.inj result).2.symm
      | ok => cases result

lemma callNative_entered {f : NativeRef} (bound : count.toNat < m.stack.size)
    (result : callNative f count m = .ok a m') : Entered (m.calleePlace count) (.native f) m m' := by
  obtain ⟨body, blueprint, known, answer, rfl⟩ := callNative_ok result
  have place : m.stack.size - count.toNat - 1 = m.calleePlace count := by
    unfold calleePlace
    omega
  have below : m.calleePlace count < m.stack.size := by
    unfold calleePlace
    omega
  have given : m.arguments count = m.above (m.calleePlace count) := by
    rw [arguments, above, ← place, Nat.sub_add_cancel (Nat.sub_pos_of_lt bound)]
  rw [given] at answer
  rw [answered, place]
  refine ⟨fun slot lower => getElem?_shrink_push _ lower below.le,
    .inl ⟨_, .native known answer, m.answered_frames f count blueprint, ?_, getElem?_shrink_push_self _ below.le⟩⟩
  rw [Array.size_push, Array.size_shrink]
  omega

lemma construct_entered {c : ClassRef} (result : construct c count m = .ok a m') :
    Entered (m.calleePlace count) (.cls c) m m' := by
  obtain ⟨made, m₁, new, result⟩ := bind_ok result
  obtain ⟨rfl, rfl⟩ := EStateM.Result.ok.inj new
  obtain ⟨_, m₂, placed, result⟩ := bind_ok result
  obtain ⟨bound, rfl⟩ := replace_ok placed
  obtain ⟨methods, looked, result⟩ := inspect_ok inferInstance result
  have table := methodsOf_ok looked
  have kept : KeepsBelow (m.calleePlace count) m
      { m with stack := m.stack.setIfInBounds (m.calleePlace count) (.inst m.fields.size c) } :=
    fun slot below => Array.getElem?_setIfInBounds_ne (Nat.ne_of_gt below)
  cases found : methods.find? "init" with
  | some initializer =>
    rw [found] at result
    obtain ⟨-, rfl⟩ := call_ok result
    refine ⟨kept, .inr ⟨initializer, .initializer table found, ?_⟩⟩
    rw [calleePlace, Array.size_setIfInBounds]
    rfl
  | none =>
    rw [found] at result
    by_cases zero : count = 0
    · rw [show (unless count = 0 do fail (.arityMismatch 0 count) : Action Unit) = pure () from
        if_pos zero] at result
      obtain ⟨-, rfl⟩ := EStateM.Result.ok.inj result
      have pos : 0 < m.stack.size := Nat.zero_lt_of_lt bound
      have last : m.calleePlace count + 1 = m.stack.size := by
        rw [calleePlace, zero]
        exact Nat.sub_add_cancel pos
      refine ⟨kept, .inl ⟨_, .made table found, rfl, (Array.size_setIfInBounds ..).trans last.symm, ?_⟩⟩
      exact Array.getElem?_setIfInBounds_self_of_lt (Nat.lt_of_succ_le last.le)
    · rw [show (unless count = 0 do fail (.arityMismatch 0 count) : Action Unit) =
        fail (.arityMismatch 0 count) from if_neg zero] at result
      cases result

lemma callValue_entered {callee : Value} (bound : count.toNat < m.stack.size)
    (result : callValue callee count m = .ok a m') : Entered (m.calleePlace count) callee m m' := by
  cases callee with
  | closure g => exact call_entered (.closure g) result
  | bound serial receiver g =>
    obtain ⟨_, m₁, placed, result⟩ := bind_ok result
    obtain ⟨-, rfl⟩ := replace_ok placed
    have entered := call_entered (.bound serial receiver g) result
    rw [calleePlace, Array.size_setIfInBounds] at entered
    exact entered.replaced
  | cls c => exact construct_entered result
  | native f => exact callNative_entered bound result
  | _ => cases result

/-- A method of a class is called at once. -/
lemma invokeFromClass_ok {c : ClassRef} {x : String} (result : invokeFromClass c x count m = .ok a m') :
    ∃ methods g, m.methods[c.serial]? = some methods ∧ methods.find? x = some g ∧ call g count m = .ok a m' := by
  obtain ⟨g, looked, result⟩ := inspect_ok inferInstance result
  obtain ⟨methods, here, looked⟩ := inspect_ok inferInstance looked
  cases found : methods.find? x with
  | none =>
    rw [found] at looked
    cases looked
  | some g' =>
    rw [found] at looked
    obtain ⟨rfl, -⟩ := EStateM.Result.ok.inj looked
    exact ⟨methods, g', methodsOf_ok here, found, result⟩

/-- A call takes its values off the stack for that of the callee, or else starts a frame in their place. -/
lemma exec_calls {i : Instr} {taken base : Nat} (frames : m.frames = f :: callers) (calls : i.Calls taken)
    (place : base + taken = m.stack.size) (result : exec i m = .ok a m') :
    ∃ callee, m.Callee f.closure.prototype i callee ∧ Entered base callee m m' := by
  cases calls with
  | call count =>
    obtain ⟨callee, looked, result⟩ := inspect_ok inferInstance result
    have entered := callValue_entered (by omega) result
    rw [show m.calleePlace count = base by unfold calleePlace; omega] at entered
    exact ⟨callee, .value (peek_ok looked), entered⟩
  | invoke index count =>
    have there : m.calleePlace count = base := by
      unfold calleePlace
      omega
    obtain ⟨x, named, result⟩ := inspect_ok inferInstance result
    obtain ⟨rfl, -⟩ := name_ok frames named
    obtain ⟨receiver, looked, result⟩ := inspect_ok inferInstance result
    have top := peek_ok looked
    cases receiver with
    | inst serial r =>
      obtain ⟨field, looked, result⟩ := inspect_ok inferInstance result
      obtain ⟨t, fields, rfl⟩ := field?_ok looked
      cases found : t.find? (f.closure.prototype.chunk.constantText index) with
      | some callee =>
        rw [found] at result
        obtain ⟨_, m₁, placed, result⟩ := bind_ok result
        obtain ⟨bound, rfl⟩ := replace_ok placed
        have entered := callValue_entered (by rw [Array.size_setIfInBounds]; exact bound) result
        rw [calleePlace, Array.size_setIfInBounds] at entered
        exact ⟨callee, .field top fields found, there ▸ entered.replaced⟩
      | none =>
        rw [found] at result
        obtain ⟨methods, g, table, method, called⟩ := invokeFromClass_ok result
        exact ⟨.closure g, .method top fields found table method, there ▸ call_entered (.closure g) called⟩
    | _ => cases result
  | superInvoke index count =>
    obtain ⟨x, named, result⟩ := inspect_ok inferInstance result
    obtain ⟨rfl, -⟩ := name_ok frames named
    obtain ⟨r, m₁, popped, result⟩ := bind_ok result
    obtain ⟨top, rfl⟩ := popClass_ok popped
    obtain ⟨methods, g, table, method, called⟩ := invokeFromClass_ok result
    obtain ⟨-, rfl⟩ := call_ok called
    have there : calleePlace { m with stack := m.stack.pop } count = base := by
      rw [calleePlace, Array.size_pop]
      omega
    refine ⟨.closure g, .superMethod top table method, fun slot below => ?_, .inr ⟨g, .closure g, ?_⟩⟩
    · dsimp only
      rw [Array.getElem?_pop, if_pos (by omega)]
    · rw [there]

end Machine

end Lox
