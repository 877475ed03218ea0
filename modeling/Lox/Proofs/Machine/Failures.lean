import Lox.Proofs.Machine.Frames

/-!
# What a failed instruction leaves behind

Only a return ends a run well (`exec_finished`), and most actions never fail (`Sure`).  Those that do look
first: they fail before they change anything, or when no more has happened than that a callee was replaced,
an operand popped or an instance made (`Aborted`).  So an instruction that fails leaves all but the values
that it would have taken off as they were (`exec_aborts`), and a run that stops leaves the methods of
classes as they were (`exec_stops_methods`).
-/

namespace Lox

/-- How many bytes of the instruction have not been read when the error strikes. -/
def RuntimeError.unread : RuntimeError → Nat
  | .propertyOfNoInstance | .fieldOfNoInstance => 1
  | _ => 0

/-- How many bytes of the instruction may not have been read when it fails: a property is named after the object
has been found to be an instance. -/
def Instr.skips : Instr → Nat
  | .getProperty _ | .setProperty _ => 1
  | _ => 0

namespace Machine

variable {α β : Type} {m m' m'' : Machine}

/-! ## Actions that go on -/

/-- A way for a run to stop that is no defect. -/
inductive Ending where
  | failure
  | success

/-- The run has stopped in this way. -/
def Ending.Is : Ending → Stop → Prop
  | .failure, .failed _ => True
  | .success, .finished => True
  | _, _ => False

lemma Ending.not_broken (way : Ending) (defect : Defect) : ¬ way.Is (.broken defect) := by
  cases way <;> exact id

/-- The action never stops the run in this way. -/
class Avoids (way : Ending) (act : Action α) : Prop where
  avoids : ∀ {m stop m'}, act m = .error stop m' → ¬ way.Is stop

/-- The action never fails. -/
abbrev Sure (act : Action α) : Prop := Avoids .failure act

lemma Sure.sound {act : Action α} (sure : Sure act) {e : RuntimeError} : act m ≠ .error (.failed e) m' :=
  fun failed => sure.avoids failed trivial

lemma bind_error {act : Action α} {f : α → Action β} {stop : Stop}
    (result : (act >>= f) m = .error stop m'') :
    act m = .error stop m'' ∨ ∃ a m', act m = .ok a m' ∧ f a m' = .error stop m'' := by
  rw [bind_apply] at result
  cases here : act m with
  | error stop m' =>
    rw [here] at result
    obtain ⟨rfl, rfl⟩ := EStateM.Result.error.inj result
    exact .inl rfl
  | ok a m' =>
    rw [here] at result
    exact .inr ⟨a, m', rfl, result⟩

section Combinators

variable {act : Action α} {f : α → Action β} {way : Ending}

lemma avoids_bind (first : Avoids way act) (second : ∀ a, Avoids way (f a)) :
    Avoids way (act >>= f) := by
  refine ⟨fun result => ?_⟩
  rcases bind_error result with stopped | ⟨a, m', -, stopped⟩
  · exact first.avoids stopped
  · exact (second a).avoids stopped

/-- An action that goes on, or else comes to a defect. -/
lemma avoids_of_broken (broken : ∀ {m stop m'}, act m = .error stop m' → ∃ defect, stop = .broken defect) :
    Avoids way act := by
  refine ⟨fun result => ?_⟩
  obtain ⟨defect, rfl⟩ := broken result
  exact way.not_broken defect

instance [first : Avoids way act] [second : ∀ a, Avoids way (f a)] : Avoids way (act >>= f) :=
  avoids_bind first second

instance (c : Prop) [Decidable c] (x y : Action α) [Avoids way x] [Avoids way y] :
    Avoids way (if c then x else y) := by
  split <;> infer_instance

instance (a : α) : Avoids way (pure a : Action α) := ⟨nofun⟩

instance : Avoids way (get : Action Machine) := ⟨nofun⟩

instance (f : Machine → α × Machine) : Avoids way (modifyGet f : Action α) := ⟨nofun⟩

instance (f : Machine → Machine) : Avoids way (modify f : Action Unit) := ⟨nofun⟩

instance (defect : Defect) : Avoids way (broken defect : Action α) :=
  avoids_of_broken fun result => ⟨defect, (EStateM.Result.error.inj result).1.symm⟩

instance (defect : Defect) (a? : Option α) : Avoids way (orBroken defect a?) := by
  cases a? <;> rw [orBroken] <;> infer_instance

end Combinators

section Actions

variable {way : Ending}

instance (v : Value) : Avoids way (push v) := ⟨nofun⟩

instance : Avoids way pop := by
  refine avoids_of_broken fun result => ?_
  unfold pop at result
  split at result <;> cases result
  exact ⟨_, rfl⟩

instance (distance : Nat) : Avoids way (peek distance) := by
  refine avoids_of_broken fun result => ?_
  unfold peek at result
  split at result <;> cases result
  exact ⟨_, rfl⟩

instance (distance : Nat) (v : Value) : Avoids way (replace distance v) := by
  refine avoids_of_broken fun result => ?_
  unfold replace at result
  split at result <;> cases result
  exact ⟨_, rfl⟩

instance (slot : Nat) : Avoids way (readSlot slot) := by
  refine avoids_of_broken fun result => ?_
  unfold readSlot at result
  split at result <;> cases result
  exact ⟨_, rfl⟩

instance (slot : Nat) (v : Value) : Avoids way (writeSlot slot v) := by
  refine avoids_of_broken fun result => ?_
  unfold writeSlot at result
  split at result <;> cases result
  exact ⟨_, rfl⟩

instance (size : Nat) : Avoids way (cutStack size) := ⟨nofun⟩

instance (b : Blueprint) : Avoids way (make b) := ⟨nofun⟩

instance : Avoids way frame := by
  refine avoids_of_broken fun result => ?_
  unfold frame at result
  split at result <;> cases result
  exact ⟨_, rfl⟩

instance (ip : Nat) : Avoids way (goto ip) := by
  refine avoids_of_broken fun result => ?_
  unfold goto at result
  split at result <;> cases result
  exact ⟨_, rfl⟩

instance (index : UInt8) : Avoids way (constant index) := by
  unfold constant
  infer_instance

instance (index : UInt8) : Avoids way (name index) := by
  unfold name
  refine avoids_bind inferInstance fun c => ?_
  split <;> infer_instance

instance : Avoids way popClass := by
  unfold popClass
  refine avoids_bind inferInstance fun v => ?_
  split <;> infer_instance

instance (c : ClassRef) : Avoids way (methodsOf c) := by
  unfold methodsOf
  infer_instance

instance (c : ClassRef) (f : Table Closure → Table Closure) : Avoids way (modifyMethods c f) := by
  refine avoids_of_broken fun result => ?_
  unfold modifyMethods at result
  split at result <;> cases result
  exact ⟨_, rfl⟩

instance (serial : Nat) (name : String) : Avoids way (field? serial name) := by
  unfold field?
  infer_instance

instance (serial : Nat) (name : String) (v : Value) : Avoids way (setField serial name v) := by
  refine avoids_of_broken fun result => ?_
  unfold setField at result
  split at result <;> cases result
  exact ⟨_, rfl⟩

instance (slot : Nat) : Avoids way (captureSlot slot) := by
  refine avoids_of_broken fun result => ?_
  unfold captureSlot at result
  dsimp only at result
  split at result <;> cases result

instance (last : Nat) : Avoids way (closeCells last) := by
  refine avoids_of_broken fun result => ?_
  unfold closeCells at result
  split at result <;> cases result
  exact ⟨_, rfl⟩

instance (index : UInt8) : Avoids way (capturedCell index) := by
  unfold capturedCell
  infer_instance

instance (cell : Nat) : Avoids way (readCell cell) := by
  unfold readCell
  refine avoids_bind inferInstance fun m => avoids_bind inferInstance fun c => ?_
  split <;> infer_instance

instance (cell : Nat) (v : Value) : Avoids way (writeCell cell v) := by
  unfold writeCell
  refine avoids_bind inferInstance fun m => avoids_bind inferInstance fun c => ?_
  split <;> infer_instance

instance (captures : List Capture) (found : Array Nat) : Avoids way (captureAll captures found) := by
  induction captures generalizing found with
  | nil => exact inferInstanceAs (Avoids way (pure found))
  | cons capture captures ih =>
    rw [captureAll]
    infer_instance

instance (name : String) : Avoids way (defineGlobal name) := by
  unfold defineGlobal
  infer_instance

instance (index : UInt8) (captures : List Capture) : Avoids way (pushClosure index captures) := by
  unfold pushClosure
  refine avoids_bind inferInstance fun c => ?_
  split <;> infer_instance

instance (index : UInt8) : Avoids way (pushClass index) := by
  unfold pushClass
  infer_instance

instance (index : UInt8) : Avoids way (addMethod index) := by
  unfold addMethod
  refine avoids_bind inferInstance fun name => avoids_bind inferInstance fun v => ?_
  split
  · refine avoids_bind inferInstance fun v => ?_
    split <;> infer_instance
  · infer_instance

/-- The end of a run is no error. -/
instance : Sure ret := by
  have ends : Sure (throw .finished : Action Unit) := by
    refine ⟨fun result => ?_⟩
    cases result
    exact id
  unfold ret
  infer_instance

end Actions

/-! ### The end of a run

Only a return ends a run well. -/

section Ends

instance (error : RuntimeError) : Avoids .success (fail error : Action α) := by
  refine ⟨fun result => ?_⟩
  cases result
  exact id

instance (f : Float → Float → Value) : Avoids .success (numeric f) := by
  unfold numeric
  refine avoids_bind inferInstance fun a => avoids_bind inferInstance fun b => ?_
  split <;> infer_instance

instance : Avoids .success add := by
  unfold add
  refine avoids_bind inferInstance fun a => avoids_bind inferInstance fun b => ?_
  split <;> infer_instance

instance : Avoids .success negate := by
  unfold negate
  refine avoids_bind inferInstance fun a => ?_
  split <;> infer_instance

instance (name : String) : Avoids .success (readGlobal name) := by
  unfold readGlobal
  refine avoids_bind inferInstance fun m => ?_
  split <;> infer_instance

instance (name : String) : Avoids .success (writeGlobal name) := by
  unfold writeGlobal
  infer_instance

instance (c : ClassRef) (name : String) : Avoids .success (method c name) := by
  unfold method
  refine avoids_bind inferInstance fun methods => ?_
  split <;> infer_instance

instance (c : ClassRef) (name : String) : Avoids .success (bindMethod c name) := by
  unfold bindMethod
  infer_instance

instance (error : RuntimeError) : Avoids .success (failUnread error : Action α) := by
  unfold failUnread
  infer_instance

instance (index : UInt8) : Avoids .success (readProperty index) := by
  unfold readProperty
  refine avoids_bind inferInstance fun v => ?_
  split
  · refine avoids_bind inferInstance fun name => avoids_bind inferInstance fun field => ?_
    split <;> infer_instance
  · infer_instance

instance (index : UInt8) : Avoids .success (writeProperty index) := by
  unfold writeProperty
  refine avoids_bind inferInstance fun v => ?_
  split <;> infer_instance

instance : Avoids .success inherit := by
  unfold inherit
  refine avoids_bind inferInstance fun v => ?_
  split <;> infer_instance

instance (closure : Closure) (count : UInt8) : Avoids .success (call closure count) := by
  refine ⟨fun result => ?_⟩
  unfold call at result
  dsimp only at result
  split at result
  · cases result
    exact id
  · split at result
    · cases result
      exact id
    · split at result <;> cases result
      exact id

instance (f : NativeRef) (count : UInt8) : Avoids .success (callNative f count) := by
  unfold callNative
  split
  · infer_instance
  · refine avoids_bind inferInstance fun m => avoids_bind inferInstance fun body => ?_
    dsimp only
    split <;> infer_instance

instance (c : ClassRef) (count : UInt8) : Avoids .success (construct c count) := by
  unfold construct
  refine avoids_bind inferInstance fun v => avoids_bind inferInstance fun _ =>
    avoids_bind inferInstance fun methods => ?_
  split
  · infer_instance
  · split <;> infer_instance

instance (callee : Value) (count : UInt8) : Avoids .success (callValue callee count) := by
  unfold callValue
  split <;> infer_instance

instance (c : ClassRef) (name : String) (count : UInt8) :
    Avoids .success (invokeFromClass c name count) := by
  unfold invokeFromClass
  infer_instance

instance (name : String) (count : UInt8) : Avoids .success (invoke name count) := by
  unfold invoke
  refine avoids_bind inferInstance fun v => ?_
  split
  · refine avoids_bind inferInstance fun field => ?_
    split <;> infer_instance
  · infer_instance

end Ends

/-- The instruction that ends a run well is a return. -/
lemma exec_finished {i : Instr} (result : exec i m = .error .finished m') : i = .ret := by
  by_contra other
  have goesOn : Avoids .success (exec i) := by
    cases i with
    | ret => exact absurd rfl other
    | print => exact inferInstanceAs (Avoids .success (pop >>= fun v => modify (·.note (.printed v.display))))
    | _ =>
      rw [exec]
      infer_instance
  exact goesOn.avoids result trivial


/-! ## Actions that fail early -/

/-- The calls, with the running one so many bytes back. -/
def rewind (count : Nat) : List Frame → List Frame
  | [] => []
  | f :: callers => { f with ip := f.ip - count } :: callers

lemma rewind_zero (frames : List Frame) : rewind 0 frames = frames := by
  cases frames <;> rfl

/-- All but the `d` topmost values are as they were, though the last `u` bytes of the instruction may not have
been read; there may be instances that were not there before, and a function of the host remembers the call. -/
structure Aborted (d u : Nat) (e : RuntimeError) (m m' : Machine) : Prop where
  read : e.unread ≤ u
  rest : m' = { m with stack := m'.stack, frames := m'.frames, fields := m'.fields, hostCalls := m'.hostCalls }
  frames : m'.frames = rewind e.unread m.frames
  fields : m.fields.toList <+: m'.fields.toList
  hostCalls : m.hostCalls.toList <+: m'.hostCalls.toList
  stack : ∀ slot, slot + d < m.stack.size → m'.stack[slot]? = m.stack[slot]?

variable {e : RuntimeError}

lemma Aborted.of_read (d u : Nat) (m : Machine) (read : e.unread = 0) : Aborted d u e m m :=
  ⟨read ▸ Nat.zero_le u, rfl, by rw [read, rewind_zero], List.prefix_rfl, List.prefix_rfl, fun _ _ => rfl⟩

lemma Aborted.loosen {d d' u : Nat} (h : Aborted d u e m m') (more : d ≤ d') : Aborted d' u e m m' :=
  { h with stack := fun slot below => h.stack slot (by omega) }

/-- If the action fails, it leaves all but the `d` topmost values as they were, and all but the last `u` bytes of the
instruction have been read. -/
structure Aborts (act : Action α) (d u : Nat) : Prop where
  aborted : ∀ {m e m'}, act m = .error (.failed e) m' → Aborted d u e m m'

section Aborts

variable {d d' u : Nat} {act : Action α} {f : α → Action β}

lemma Aborts.loosen (h : Aborts act d u) (more : d ≤ d') : Aborts act d' u :=
  ⟨fun failed => (h.aborted failed).loosen more⟩

lemma sure_aborts [sure : Sure act] : Aborts act d u := ⟨fun failed => absurd failed (Sure.sound sure)⟩

lemma fail_aborts {error : RuntimeError} (read : error.unread = 0) (d : Nat) :
    Aborts (fail error : Action α) d u := by
  refine ⟨fun {m e m'} failed => ?_⟩
  obtain ⟨same, rfl⟩ := EStateM.Result.error.inj failed
  obtain rfl := Stop.failed.inj same
  exact .of_read d u m read

lemma failUnread_apply {f : Frame} {callers : List Frame} (error : RuntimeError) (frames : m.frames = f :: callers) :
    (failUnread error : Action α) m =
      .error (.failed error) { m with frames := { f with ip := f.ip - 1 } :: callers } := by
  simp only [failUnread, bind_apply, frame, goto, frames]
  rfl

/-- An action that fails before the operand has been read. -/
lemma failUnread_aborts {error : RuntimeError} (unread : error.unread = 1) (d : Nat) :
    Aborts (failUnread error : Action α) d 1 := by
  refine ⟨fun {m e m'} failed => ?_⟩
  cases frames : m.frames with
  | nil =>
    simp only [failUnread, bind_apply, frame, frames] at failed
    cases failed
  | cons f callers =>
    rw [failUnread_apply error frames] at failed
    obtain ⟨same, rfl⟩ := EStateM.Result.error.inj failed
    obtain rfl := Stop.failed.inj same
    refine ⟨unread.le, rfl, ?_, List.prefix_rfl, List.prefix_rfl, fun _ _ => rfl⟩
    rw [frames, unread]
    rfl

/-- An action that looks at something before it goes on. -/
lemma looking_aborts [looks : Inspecting act] (first : Aborts act d u) (second : ∀ a, Aborts (f a) d u) :
    Aborts (act >>= f) d u := by
  refine ⟨fun {m e m''} failed => ?_⟩
  rcases bind_error failed with failed | ⟨a, m', here, failed⟩
  · exact first.aborted failed
  · rw [looks.same here] at failed
    exact (second a).aborted failed

/-- An action that looks at something, which is sure to be there. -/
lemma look_aborts [looks : Inspecting act] [Sure act] (second : ∀ a, Aborts (f a) d u) :
    Aborts (act >>= f) d u :=
  looking_aborts sure_aborts second

/-- An action that makes sure of something before it changes anything. -/
lemma then_aborts [second : ∀ a, Sure (f a)] (first : Aborts act d u) : Aborts (act >>= f) d u := by
  refine ⟨fun {m e m''} failed => ?_⟩
  rcases bind_error failed with failed | ⟨a, m', -, failed⟩
  · exact first.aborted failed
  · exact absurd failed (Sure.sound (second a))

end Aborts

section Instructions

lemma numeric_aborts (f : Float → Float → Value) : Aborts (numeric f) 0 0 := by
  unfold numeric
  refine look_aborts fun a =>
    look_aborts fun b => ?_
  split
  · exact sure_aborts
  · exact fail_aborts rfl 0

lemma add_aborts : Aborts add 0 0 := by
  unfold add
  refine look_aborts fun a =>
    look_aborts fun b => ?_
  split
  · exact sure_aborts
  · exact sure_aborts
  · exact fail_aborts rfl 0

lemma negate_aborts : Aborts negate 0 0 := by
  unfold negate
  refine look_aborts fun a => ?_
  split
  · exact sure_aborts
  · exact fail_aborts rfl 0

lemma readGlobal_aborts (name : String) : Aborts (readGlobal name) 0 0 := by
  unfold readGlobal
  refine look_aborts fun m => ?_
  split
  · exact sure_aborts
  · exact fail_aborts rfl 0

lemma writeGlobal_aborts (name : String) : Aborts (writeGlobal name) 0 0 := by
  unfold writeGlobal
  refine look_aborts fun m => ?_
  split
  · exact sure_aborts
  · exact fail_aborts rfl 0

lemma method_aborts {u : Nat} (c : ClassRef) (name : String) : Aborts (method c name) 0 u := by
  unfold method
  refine look_aborts fun methods => ?_
  split
  · exact sure_aborts
  · exact fail_aborts rfl 0

lemma bindMethod_aborts {u : Nat} (c : ClassRef) (name : String) : Aborts (bindMethod c name) 0 u := by
  unfold bindMethod
  exact then_aborts (method_aborts c name)

lemma readProperty_aborts (index : UInt8) : Aborts (readProperty index) 0 1 := by
  unfold readProperty
  refine look_aborts fun v => ?_
  split
  · refine look_aborts fun name =>
      look_aborts fun field => ?_
    split
    · exact sure_aborts
    · exact bindMethod_aborts _ _
  · exact failUnread_aborts rfl 0

lemma writeProperty_aborts (index : UInt8) : Aborts (writeProperty index) 0 1 := by
  unfold writeProperty
  refine look_aborts fun v => ?_
  split
  · exact sure_aborts
  · exact failUnread_aborts rfl 0

lemma inherit_aborts : Aborts inherit 0 0 := by
  unfold inherit
  refine look_aborts fun v => ?_
  split
  · exact sure_aborts
  · exact fail_aborts rfl 0

/-! ### Calls -/

lemma call_aborts (closure : Closure) (count : UInt8) : Aborts (call closure count) 0 0 := by
  refine ⟨fun {m e m'} failed => ?_⟩
  unfold call at failed
  dsimp only at failed
  split at failed
  · obtain ⟨same, rfl⟩ := EStateM.Result.error.inj failed
    obtain rfl := Stop.failed.inj same
    exact .of_read 0 0 m rfl
  · split at failed
    · obtain ⟨same, rfl⟩ := EStateM.Result.error.inj failed
      obtain rfl := Stop.failed.inj same
      exact .of_read 0 0 m rfl
    · split at failed <;> exact nomatch failed

/-- A function of the host that has no answer is remembered to have been called. -/
lemma remember_aborts {error : RuntimeError} (read : error.unread = 0) (function : Nat)
    (arguments : Array Value) :
    Aborts (do modify (·.remember function arguments none); fail error : Action α) 0 0 := by
  refine ⟨fun {m e m'} failed => ?_⟩
  obtain ⟨same, rfl⟩ := EStateM.Result.error.inj failed
  obtain rfl := Stop.failed.inj same
  refine ⟨read.le, rfl, by rw [read, rewind_zero]; rfl, List.prefix_rfl, ?_, fun _ _ => rfl⟩
  exact ⟨[_], (Array.toList_push ..).symm⟩

lemma callNative_aborts (f : NativeRef) (count : UInt8) : Aborts (callNative f count) 0 0 := by
  unfold callNative
  split
  · exact fail_aborts rfl 0
  · refine look_aborts fun m =>
      look_aborts fun body => ?_
    dsimp only
    split
    · exact remember_aborts rfl _ _
    · exact sure_aborts

/-- The callee is replaced before the action fails. -/
lemma Aborted.replaced {count u : Nat} {v : Value} (placed : replace count v m = .ok () m')
    (aborted : Aborted (count + 1) u e m' m'') : Aborted (count + 1) u e m m'' := by
  unfold replace at placed
  split at placed
  · obtain ⟨-, rfl⟩ := EStateM.Result.ok.inj placed
    refine { aborted with stack := fun slot below => ?_ }
    rw [aborted.stack slot (by rw [Array.size_setIfInBounds]; exact below)]
    exact Array.getElem?_setIfInBounds_ne (by omega)
  · exact nomatch placed

lemma replace_aborts {count u : Nat} {v : Value} {act : Action β} (second : Aborts act (count + 1) u) :
    Aborts (replace count v >>= fun _ => act) (count + 1) u := by
  refine ⟨fun {m e m''} failed => ?_⟩
  rcases bind_error failed with failed | ⟨_, m', placed, failed⟩
  · exact absurd failed (Sure.sound inferInstance)
  · exact (second.aborted failed).replaced placed

/-- A new instance is nothing that is missed. -/
lemma instance_aborts {c : ClassRef} {f : Value → Action β} {d u : Nat}
    (second : ∀ made, Aborts (f made) d u) : Aborts (modifyGet (·.newInstance c) >>= f) d u := by
  refine ⟨fun {m e m'} failed => ?_⟩
  rcases bind_error failed with failed | ⟨made, m₁, here, failed⟩
  · cases failed
  · obtain ⟨-, rfl⟩ := EStateM.Result.ok.inj here
    have aborted := (second made).aborted failed
    refine { aborted with fields := List.IsPrefix.trans ?_ aborted.fields }
    exact ⟨[.empty], (Array.toList_push ..).symm⟩

lemma construct_aborts (c : ClassRef) (count : UInt8) : Aborts (construct c count) (count.toNat + 1) 0 := by
  refine instance_aborts fun made => replace_aborts (look_aborts fun methods => ?_)
  split
  · exact (call_aborts _ count).loosen (Nat.zero_le _)
  · split
    · exact sure_aborts
    · exact fail_aborts rfl _

lemma callValue_aborts (callee : Value) (count : UInt8) :
    Aborts (callValue callee count) (count.toNat + 1) 0 := by
  cases callee with
  | bound serial receiver closure =>
    exact replace_aborts ((call_aborts closure count).loosen (Nat.zero_le _))
  | cls c => exact construct_aborts c count
  | closure closure => exact (call_aborts closure count).loosen (Nat.zero_le _)
  | native f => exact (callNative_aborts f count).loosen (Nat.zero_le _)
  | _ => exact fail_aborts rfl _

lemma invokeFromClass_aborts (c : ClassRef) (name : String) (count : UInt8) :
    Aborts (invokeFromClass c name count) 0 0 := by
  unfold invokeFromClass
  exact looking_aborts (method_aborts c name) fun closure => call_aborts closure count

lemma invoke_aborts (name : String) (count : UInt8) : Aborts (invoke name count) (count.toNat + 1) 0 := by
  unfold invoke
  refine look_aborts fun v => ?_
  split
  · refine look_aborts fun field => ?_
    split
    · exact replace_aborts (callValue_aborts _ count)
    · exact (invokeFromClass_aborts _ name count).loosen (Nat.zero_le _)
  · exact fail_aborts rfl _

/-- A class is popped before the action fails. -/
lemma popClass_aborts {d u : Nat} {f : ClassRef → Action β} (second : ∀ c, Aborts (f c) d u) :
    Aborts (popClass >>= f) (d + 1) u := by
  refine ⟨fun {m e m''} failed => ?_⟩
  rcases bind_error failed with failed | ⟨c, m', popped, failed⟩
  · exact absurd failed (Sure.sound inferInstance)
  · obtain ⟨-, rfl⟩ := popClass_ok popped
    have aborted := (second c).aborted failed
    refine { aborted with stack := fun slot below => ?_ }
    have size : (m.stack.pop).size = m.stack.size - 1 := Array.size_pop
    rw [aborted.stack slot (by dsimp only; omega)]
    exact (Array.getElem?_pop ..).trans (if_pos (by omega))

/-- An instruction that fails leaves the values that it would not have taken off as they were, and all of it has been
read, but where a property is of no instance. -/
lemma exec_aborts (i : Instr) : Aborts (exec i) i.pops i.skips := by
  have within : ∀ {d}, Aborts (exec i) d i.skips → d ≤ i.pops → Aborts (exec i) i.pops i.skips :=
    fun aborts enough => aborts.loosen enough
  have named : ∀ {act : String → Action Unit} {d u : Nat} (index : UInt8), (∀ x, Aborts (act x) d u) →
      Aborts (name index >>= act) d u :=
    fun index second => look_aborts second
  cases i with
  | getGlobal index => exact within (named index readGlobal_aborts) (Nat.zero_le _)
  | setGlobal index => exact within (named index writeGlobal_aborts) (Nat.zero_le _)
  | getProperty index => exact within (readProperty_aborts index) (Nat.zero_le _)
  | setProperty index => exact within (writeProperty_aborts index) (Nat.zero_le _)
  | getSuper index =>
    exact within (named index fun x => popClass_aborts fun c => bindMethod_aborts c x)
      (by simp [Instr.pops])
  | greater | less | subtract | multiply | divide => exact within (numeric_aborts _) (Nat.zero_le _)
  | add => exact within add_aborts (Nat.zero_le _)
  | negate => exact within negate_aborts (Nat.zero_le _)
  | call count =>
    exact look_aborts fun v => callValue_aborts v count
  | invoke index count => exact named index fun x => invoke_aborts x count
  | superInvoke index count =>
    exact within (named index fun x => popClass_aborts fun c => invokeFromClass_aborts c x count)
      (by simp [Instr.pops])
  | inherit => exact within inherit_aborts (Nat.zero_le _)
  | print => exact (sure_aborts : Aborts (pop >>= fun v => modify (·.note (.printed v.display)) : Action Unit) _ _)
  | _ =>
    rw [exec]
    exact sure_aborts

/-- A step that fails has executed the next instruction, and taken off no more than its operands. -/
lemma step_aborts (failed : m.step = .error (.failed e) m') :
    ∃ f callers i, m.frames = f :: callers ∧ f.closure.prototype.chunk.instrAt? f.ip = some i ∧
      Aborted i.pops i.skips e (m.past f callers i) m' := by
  rcases step_cases m with ⟨_, broken⟩ | ⟨f, callers, i, frames, decoded, step⟩
  · cases broken.symm.trans failed
  · exact ⟨f, callers, i, frames, decoded, (exec_aborts i).aborted (step.symm.trans failed)⟩

/-- No class changes where a run stops. -/
lemma exec_stops_methods {i : Instr} {stop : Stop} (result : exec i m = .error stop m')
    (sound : ∀ defect, stop ≠ .broken defect) : m'.methods = m.methods := by
  cases stop with
  | failed e =>
    have rest := ((exec_aborts i).aborted result).rest
    rw [rest]
  | broken defect => exact absurd rfl (sound defect)
  | finished =>
    obtain rfl := exec_finished result
    rw [exec] at result
    rcases ret_cases m with ⟨defect, _, broken, -⟩ | ⟨f, callers, v, frames, top⟩
    · cases broken.symm.trans result
    · rw [ret_apply frames top] at result
      split at result
      · cases result
      · dsimp only at result
        split at result
        · obtain ⟨-, rfl⟩ := EStateM.Result.error.inj result
          rfl
        · cases result

end Instructions

end Machine

end Lox
