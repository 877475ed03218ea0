import Lox.Proofs.Machine.Evolution

/-!
# What a run tells

Of all instructions only one tells anything: `print` adds a printed line to the journal, and every other
instruction leaves the journal as it was (`exec_silent`).  So a run that nobody watches adds printed lines and
nothing else (`run_prints`).
-/

namespace Lox.Machine

variable {α β : Type}

/-- The action leaves the journal as it was, whether it gives a value or stops the run. -/
class Silent (act : Action α) : Prop where
  journal : ∀ m, (left (act m)).journal = m.journal

section Combinators

variable {act : Action α} {f : α → Action β}

lemma silent_bind (first : Silent act) (second : ∀ a, Silent (f a)) : Silent (act >>= f) := by
  refine ⟨fun m => ?_⟩
  have same := first.journal m
  rw [bind_apply]
  cases result : act m with
  | ok a m' =>
    rw [result] at same
    exact ((second a).journal m').trans same
  | error =>
    rw [result] at same
    exact same

instance [first : Silent act] [second : ∀ a, Silent (f a)] : Silent (act >>= f) := silent_bind first second

instance (a : α) : Silent (pure a : Action α) := ⟨fun _ => rfl⟩

instance : Silent (get : Action Machine) := ⟨fun _ => rfl⟩

lemma silent_modifyGet {f : Machine → α × Machine} (same : ∀ m, (f m).2.journal = m.journal) :
    Silent (modifyGet f : Action α) := ⟨same⟩

lemma silent_modify {f : Machine → Machine} (same : ∀ m, (f m).journal = m.journal) :
    Silent (modify f : Action Unit) := ⟨same⟩

instance (c : Prop) [Decidable c] (x y : Action α) [Silent x] [Silent y] : Silent (if c then x else y) := by
  split <;> infer_instance

instance (error : RuntimeError) : Silent (fail error : Action α) := ⟨fun _ => rfl⟩

instance (stop : Stop) : Silent (throw stop : Action α) := ⟨fun _ => rfl⟩

instance (defect : Defect) : Silent (broken defect : Action α) := ⟨fun _ => rfl⟩

instance (defect : Defect) (a? : Option α) : Silent (orBroken defect a?) := by
  cases a? <;> exact ⟨fun _ => rfl⟩

end Combinators

/-! ## The stack and the running call -/

section Stack

instance (v : Value) : Silent (push v) := ⟨fun _ => rfl⟩

instance : Silent pop := ⟨fun m => by unfold pop; split <;> rfl⟩

instance (distance : Nat) : Silent (peek distance) := ⟨fun m => by unfold peek; split <;> rfl⟩

instance (distance : Nat) (v : Value) : Silent (replace distance v) := ⟨fun m => by unfold replace; split <;> rfl⟩

instance (slot : Nat) : Silent (readSlot slot) := ⟨fun m => by unfold readSlot; split <;> rfl⟩

instance (slot : Nat) (v : Value) : Silent (writeSlot slot v) := ⟨fun m => by unfold writeSlot; split <;> rfl⟩

instance (size : Nat) : Silent (cutStack size) := ⟨fun _ => rfl⟩

instance (b : Blueprint) : Silent (make b) := ⟨fun m => by cases b <;> rfl⟩

instance : Silent frame := ⟨fun m => by unfold frame; split <;> rfl⟩

instance (ip : Nat) : Silent (goto ip) := ⟨fun m => by unfold goto; split <;> rfl⟩

instance : Silent fetch := by
  refine ⟨fun m => ?_⟩
  unfold fetch
  split
  · rfl
  · dsimp only
    split
    · rfl
    · split <;> rfl

instance (index : UInt8) : Silent (constant index) := by unfold constant; infer_instance

instance (index : UInt8) : Silent (name index) := by
  unfold name
  refine silent_bind inferInstance fun c => ?_
  split <;> infer_instance

end Stack

/-! ## Objects and captured variables -/

section Objects

instance : Silent popClass := by
  unfold popClass
  refine silent_bind inferInstance fun v => ?_
  split <;> infer_instance

instance (c : ClassRef) : Silent (methodsOf c) := by unfold methodsOf; infer_instance

instance (c : ClassRef) (f : Table Closure → Table Closure) : Silent (modifyMethods c f) :=
  ⟨fun m => by unfold modifyMethods; split <;> rfl⟩

instance (c : ClassRef) (name : String) : Silent (method c name) := by
  unfold method
  refine silent_bind inferInstance fun methods => ?_
  split <;> infer_instance

instance (serial : Nat) (name : String) : Silent (field? serial name) := by unfold field?; infer_instance

instance (serial : Nat) (name : String) (v : Value) : Silent (setField serial name v) :=
  ⟨fun m => by unfold setField; split <;> rfl⟩

instance (slot : Nat) : Silent (captureSlot slot) :=
  ⟨fun m => by unfold captureSlot; dsimp only; split <;> rfl⟩

instance (last : Nat) : Silent (closeCells last) := ⟨fun m => by unfold closeCells; split <;> rfl⟩

instance (index : UInt8) : Silent (capturedCell index) := by unfold capturedCell; infer_instance

instance (cell : Nat) : Silent (readCell cell) := by
  unfold readCell
  refine silent_bind inferInstance fun m => silent_bind inferInstance fun c => ?_
  split <;> infer_instance

instance (cell : Nat) (v : Value) : Silent (writeCell cell v) := by
  unfold writeCell
  refine silent_bind inferInstance fun m => silent_bind inferInstance fun c => ?_
  split
  · infer_instance
  · exact silent_modify fun m => rfl

instance (captures : List Capture) (found : Array Nat) : Silent (captureAll captures found) := by
  induction captures generalizing found with
  | nil => exact inferInstanceAs (Silent (pure found))
  | cons capture captures ih =>
    rw [captureAll]
    infer_instance

end Objects

/-! ## Calls -/

section Calls

instance (closure : Closure) (count : UInt8) : Silent (call closure count) := by
  refine ⟨fun m => ?_⟩
  unfold call
  dsimp only
  split
  · rfl
  · split
    · rfl
    · split <;> rfl

instance (function : Nat) (arguments : Array Value) (answer? : Option Value) :
    Silent (modify (·.remember function arguments answer?) : Action Unit) :=
  silent_modify fun _ => rfl

instance (f : NativeRef) (count : UInt8) : Silent (callNative f count) := by
  unfold callNative
  split
  · infer_instance
  · refine silent_bind inferInstance fun m => silent_bind inferInstance fun body => ?_
    dsimp only
    split <;> infer_instance

instance (c : ClassRef) (count : UInt8) : Silent (construct c count) := by
  unfold construct
  refine silent_bind (silent_modifyGet fun m => rfl) fun v =>
    silent_bind inferInstance fun _ => silent_bind inferInstance fun methods => ?_
  split <;> infer_instance

instance (callee : Value) (count : UInt8) : Silent (callValue callee count) := by
  unfold callValue
  split <;> infer_instance

instance (c : ClassRef) (name : String) (count : UInt8) : Silent (invokeFromClass c name count) := by
  unfold invokeFromClass
  infer_instance

instance (name : String) (count : UInt8) : Silent (invoke name count) := by
  unfold invoke
  refine silent_bind inferInstance fun v => ?_
  split
  · refine silent_bind inferInstance fun field => ?_
    split <;> infer_instance
  · infer_instance

instance (c : ClassRef) (name : String) : Silent (bindMethod c name) := by
  unfold bindMethod
  exact silent_bind inferInstance fun closure => silent_bind inferInstance fun receiver =>
    silent_bind (silent_modifyGet fun m => rfl) fun v => inferInstance

end Calls

/-! ## Instructions -/

section Instructions

instance (f : Float → Float → Value) : Silent (numeric f) := by
  unfold numeric
  refine silent_bind inferInstance fun a => silent_bind inferInstance fun b => ?_
  split <;> infer_instance

instance : Silent add := by
  unfold add
  refine silent_bind inferInstance fun a => silent_bind inferInstance fun b => ?_
  split
  · infer_instance
  · exact silent_bind (silent_modifyGet fun m => rfl) fun v => inferInstance
  · infer_instance

instance : Silent negate := by
  unfold negate
  refine silent_bind inferInstance fun a => ?_
  split <;> infer_instance

instance (name : String) : Silent (readGlobal name) := by
  unfold readGlobal
  refine silent_bind inferInstance fun m => ?_
  split <;> infer_instance

instance (name : String) : Silent (defineGlobal name) := by
  unfold defineGlobal
  exact silent_bind inferInstance fun v => silent_modify fun m => rfl

instance (name : String) : Silent (writeGlobal name) := by
  unfold writeGlobal
  refine silent_bind inferInstance fun m => ?_
  split
  · exact silent_bind inferInstance fun v => silent_modify fun m => rfl
  · infer_instance

instance (error : RuntimeError) : Silent (failUnread error : Action α) := by
  unfold failUnread
  infer_instance

instance (index : UInt8) : Silent (readProperty index) := by
  unfold readProperty
  refine silent_bind inferInstance fun v => ?_
  split
  · refine silent_bind inferInstance fun name => silent_bind inferInstance fun field => ?_
    split <;> infer_instance
  · infer_instance

instance (index : UInt8) : Silent (writeProperty index) := by
  unfold writeProperty
  refine silent_bind inferInstance fun v => ?_
  split <;> infer_instance

instance (index : UInt8) (captures : List Capture) : Silent (pushClosure index captures) := by
  unfold pushClosure
  refine silent_bind inferInstance fun c => ?_
  split
  · exact silent_bind inferInstance fun captured =>
      silent_bind (silent_modifyGet fun m => rfl) fun closure => inferInstance
  · infer_instance

instance : Silent ret := by
  unfold ret
  exact silent_bind inferInstance fun v => silent_bind inferInstance fun f =>
    silent_bind (silent_modify fun m => rfl) fun _ => inferInstance

instance (index : UInt8) : Silent (pushClass index) := by
  unfold pushClass
  exact silent_bind inferInstance fun name => silent_bind (silent_modifyGet fun m => rfl) fun c => inferInstance

instance : Silent inherit := by
  unfold inherit
  refine silent_bind inferInstance fun v => ?_
  split <;> infer_instance

instance (index : UInt8) : Silent (addMethod index) := by
  unfold addMethod
  refine silent_bind inferInstance fun name => silent_bind inferInstance fun v => ?_
  split
  · refine silent_bind inferInstance fun v => ?_
    split <;> infer_instance
  · infer_instance

/-- An instruction that does not print tells nothing. -/
lemma exec_silent {i : Instr} (other : i ≠ .print) : Silent (exec i) := by
  cases i with
  | print => exact absurd rfl other
  | _ =>
    rw [exec]
    infer_instance

end Instructions

/-! ## Runs -/

variable {m m' : Machine}

/-- The machine has told what it had told before, and has printed since. -/
def Prints (m m' : Machine) : Prop :=
  ∃ lines : List String, m'.journal.toList = m.journal.toList ++ lines.map Event.printed

lemma Prints.of_same (same : m'.journal = m.journal) : Prints m m' := ⟨[], by rw [same]; simp⟩

lemma Prints.trans {m'' : Machine} (first : Prints m m') (second : Prints m' m'') : Prints m m'' := by
  obtain ⟨lines, told⟩ := first
  obtain ⟨lines', told'⟩ := second
  exact ⟨lines ++ lines', by rw [told', told, List.map_append, List.append_assoc]⟩

lemma exec_prints (i : Instr) (m : Machine) : Prints m (left (exec i m)) := by
  by_cases print : i = .print
  · subst print
    have same : (left (pop m)).journal = m.journal := Silent.journal m
    rw [exec, bind_apply]
    cases result : pop m with
    | ok v m' =>
      rw [result] at same
      refine ⟨[v.display], ?_⟩
      show (m'.journal.push (.printed v.display)).toList = _
      rw [show m'.journal = m.journal from same, Array.toList_push]
      rfl
    | error stop m' =>
      rw [result] at same
      exact .of_same same
  · exact .of_same ((exec_silent print).journal m)

/-- A step prints at most. -/
lemma step_prints (m : Machine) : Prints m (left (step m)) := by
  have same : (left (fetch m)).journal = m.journal := Silent.journal m
  unfold step
  rw [bind_apply]
  cases result : fetch m with
  | ok i m' =>
    rw [result] at same
    exact .trans (.of_same same) (exec_prints i m')
  | error stop m' =>
    rw [result] at same
    exact .of_same same

/-- So does a run that is not traced. -/
theorem run_prints (fuel : Nat) (m : Machine) : Prints m (run false fuel m).2 := by
  induction fuel generalizing m with
  | zero => exact .of_same rfl
  | succ fuel ih =>
    have prints := step_prints m
    rw [run, if_neg Bool.false_ne_true]
    cases result : step m with
    | ok _ m' =>
      rw [result] at prints
      exact prints.trans (ih m')
    | error stop m' =>
      rw [result] at prints
      exact prints

end Lox.Machine
