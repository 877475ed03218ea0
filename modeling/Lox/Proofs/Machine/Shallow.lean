import Lox.Proofs.Machine.Transfer

/-!
# Actions at the top of the stack

Some actions only look (`Inspecting`), and most of the others work at the top of the stack and leave the calls
alone, but for the place that the running one has reached in its code (`Shallow`).  So do the instructions that
neither call nor return (`exec_pops`).
-/

namespace Lox.Machine

variable {α β : Type} {m m' m'' : Machine}

/-! ## Calls -/

/-- The running call has gone on, perhaps elsewhere in its code, and its callers wait. -/
inductive SameCalls : List Frame → List Frame → Prop where
  | refl (frames : List Frame) : SameCalls frames frames
  | moved (f : Frame) (ip : Nat) (callers : List Frame) :
      SameCalls (f :: callers) ({ f with ip } :: callers)

lemma SameCalls.trans {fs gs hs : List Frame} (first : SameCalls fs gs) (second : SameCalls gs hs) :
    SameCalls fs hs := by
  cases first with
  | refl => exact second
  | moved f ip callers =>
    cases second with
    | refl => exact .moved f ip callers
    | moved g ip' callers => exact .moved f ip' callers

lemma SameCalls.cons {f : Frame} {callers gs : List Frame} (h : SameCalls (f :: callers) gs) :
    ∃ ip, gs = { f with ip } :: callers := by
  cases h with
  | refl => exact ⟨f.ip, rfl⟩
  | moved f ip callers => exact ⟨ip, rfl⟩

/-! ## Actions that only look -/

/-- If the action goes on, it has changed nothing. -/
class Inspecting (act : Action α) : Prop where
  same : ∀ {m a m'}, act m = .ok a m' → m' = m

lemma bind_ok {act : Action α} {f : α → Action β} {b : β} (result : (act >>= f) m = .ok b m'') :
    ∃ a m', act m = .ok a m' ∧ f a m' = .ok b m'' := by
  rw [bind_apply] at result
  cases here : act m with
  | error => rw [here] at result; exact nomatch result
  | ok a m' =>
    rw [here] at result
    exact ⟨a, m', rfl, result⟩

section Inspecting

variable {act : Action α} {f : α → Action β}

/-- After an action that only looks, the next one starts in the same state. -/
lemma inspect_ok {b : β} (looks : Inspecting act) (result : (act >>= f) m = .ok b m') :
    ∃ a, act m = .ok a m ∧ f a m = .ok b m' := by
  obtain ⟨a, m₁, first, second⟩ := bind_ok result
  obtain rfl := looks.same first
  exact ⟨a, first, second⟩

/-- An action that never goes on. -/
lemma inspecting_of_stops (stops : ∀ m a m', act m ≠ .ok a m') : Inspecting act :=
  ⟨fun result => absurd result (stops _ _ _)⟩

lemma inspecting_bind (first : Inspecting act) (second : ∀ a, Inspecting (f a)) :
    Inspecting (act >>= f) := by
  refine ⟨fun result => ?_⟩
  obtain ⟨a, -, result⟩ := inspect_ok first result
  exact (second a).same result

instance [first : Inspecting act] [second : ∀ a, Inspecting (f a)] : Inspecting (act >>= f) :=
  inspecting_bind first second

instance (a : α) : Inspecting (pure a : Action α) :=
  ⟨fun result => (EStateM.Result.ok.inj result).2.symm⟩

instance : Inspecting (get : Action Machine) :=
  ⟨fun result => (EStateM.Result.ok.inj result).2.symm⟩

instance (error : RuntimeError) : Inspecting (fail error : Action α) :=
  inspecting_of_stops fun _ _ _ => nofun

instance (defect : Defect) : Inspecting (broken defect : Action α) :=
  inspecting_of_stops fun _ _ _ => nofun

instance (defect : Defect) (a? : Option α) : Inspecting (orBroken defect a?) := by
  cases a? <;> rw [orBroken] <;> infer_instance

instance (distance : Nat) : Inspecting (peek distance) := by
  refine ⟨fun result => ?_⟩
  unfold peek at result
  split at result
  · exact (EStateM.Result.ok.inj result).2.symm
  · exact nomatch result

instance (slot : Nat) : Inspecting (readSlot slot) := by
  refine ⟨fun result => ?_⟩
  unfold readSlot at result
  split at result
  · exact (EStateM.Result.ok.inj result).2.symm
  · exact nomatch result

instance : Inspecting frame := by
  refine ⟨fun result => ?_⟩
  unfold frame at result
  split at result
  · exact (EStateM.Result.ok.inj result).2.symm
  · exact nomatch result

instance (index : UInt8) : Inspecting (constant index) := by
  unfold constant
  infer_instance

instance (index : UInt8) : Inspecting (name index) := by
  unfold name
  refine inspecting_bind inferInstance fun c => ?_
  split <;> infer_instance

instance (c : ClassRef) : Inspecting (methodsOf c) := by
  unfold methodsOf
  infer_instance

instance (c : ClassRef) (name : String) : Inspecting (method c name) := by
  unfold method
  refine inspecting_bind inferInstance fun methods => ?_
  split <;> infer_instance

instance (serial : Nat) (name : String) : Inspecting (field? serial name) := by
  unfold field?
  infer_instance

instance (index : UInt8) : Inspecting (capturedCell index) := by
  unfold capturedCell
  infer_instance

instance (cell : Nat) : Inspecting (readCell cell) := by
  unfold readCell
  refine inspecting_bind inferInstance fun m => inspecting_bind inferInstance fun c => ?_
  split <;> infer_instance

end Inspecting

/-! ## Shallow actions -/

/-- If the action goes on, it leaves the calls and all but the `d` topmost values alone. -/
class Shallow (act : Action α) (d : outParam Nat) : Prop where
  shallow : ∀ {m a m'}, act m = .ok a m' →
    SameCalls m.frames m'.frames ∧ m.stack.size ≤ m'.stack.size + d ∧
      ∀ slot, slot + d < m.stack.size → m'.stack[slot]? = m.stack[slot]?

section Shallow

variable {d e : Nat} {act : Action α} {f : α → Action β}

lemma Shallow.loosen (h : Shallow act d) (more : d ≤ e) : Shallow act e := by
  refine ⟨fun result => ?_⟩
  obtain ⟨calls, size, kept⟩ := h.shallow result
  exact ⟨calls, by omega, fun slot below => kept slot (by omega)⟩

/-- The action changes neither the stack nor the calls. -/
lemma shallow_of_same (same : ∀ {m a m'}, act m = .ok a m' → m'.frames = m.frames ∧ m'.stack = m.stack) :
    Shallow act 0 := by
  refine ⟨fun result => ?_⟩
  obtain ⟨frames, stack⟩ := same result
  rw [frames, stack]
  exact ⟨.refl _, Nat.le_refl _, fun _ _ => rfl⟩

instance (priority := low) [looks : Inspecting act] : Shallow act 0 :=
  shallow_of_same fun result => by rw [looks.same result]; exact ⟨rfl, rfl⟩

lemma shallow_bind (d e : Nat) {act : Action α} {f : α → Action β} (first : Shallow act d)
    (second : ∀ a, Shallow (f a) e) :
    Shallow (act >>= f) (d + e) := by
  refine ⟨fun {m b m''} result => ?_⟩
  rw [bind_apply] at result
  cases here : act m with
  | error => rw [here] at result; exact nomatch result
  | ok a m' =>
    rw [here] at result
    obtain ⟨calls, size, kept⟩ := first.shallow here
    obtain ⟨calls', size', kept'⟩ := (second a).shallow result
    refine ⟨calls.trans calls', by omega, fun slot below => ?_⟩
    rw [kept' slot (by omega), kept slot (by omega)]

instance [first : Shallow act d] [second : ∀ a, Shallow (f a) e] : Shallow (act >>= f) (d + e) :=
  shallow_bind d e first second

instance (c : Prop) [Decidable c] (x y : Action α) [first : Shallow x d] [second : Shallow y e] :
    Shallow (if c then x else y) (max d e) := by
  split
  · exact first.loosen (Nat.le_max_left d e)
  · exact second.loosen (Nat.le_max_right d e)

lemma shallow_modifyGet {f : Machine → α × Machine}
    (same : ∀ m, (f m).2.frames = m.frames ∧ (f m).2.stack = m.stack) :
    Shallow (modifyGet f : Action α) 0 :=
  shallow_of_same fun {m _ _} result => by
    obtain ⟨-, rfl⟩ := EStateM.Result.ok.inj result
    exact same m

lemma shallow_modify {f : Machine → Machine}
    (same : ∀ m, (f m).frames = m.frames ∧ (f m).stack = m.stack) :
    Shallow (modify f : Action Unit) 0 :=
  shallow_modifyGet same

end Shallow

/-! ### Single actions -/

section Actions

instance (v : Value) : Shallow (push v) 0 := by
  refine ⟨fun result => ?_⟩
  obtain ⟨-, rfl⟩ := EStateM.Result.ok.inj result
  refine ⟨.refl _, by rw [Array.size_push]; omega, fun slot below => ?_⟩
  rw [Array.getElem?_push, if_neg (by omega)]

instance : Shallow pop 1 := by
  refine ⟨fun {m v m'} result => ?_⟩
  unfold pop at result
  split at result
  · obtain ⟨-, rfl⟩ := EStateM.Result.ok.inj result
    refine ⟨.refl _, by rw [Array.size_pop]; omega, fun slot below => ?_⟩
    rw [Array.getElem?_pop, if_pos (by omega)]
  · exact nomatch result

/-- Making a value leaves the stack and the calls alone. -/
lemma make_same {b : Blueprint} {v : Value} (made : make b m = .ok v m') :
    m'.frames = m.frames ∧ m'.stack = m.stack := by
  obtain ⟨-, rfl⟩ := EStateM.Result.ok.inj made
  cases b <;> exact ⟨rfl, rfl⟩

instance (ip : Nat) : Shallow (goto ip) 0 := by
  refine ⟨fun {m a m'} result => ?_⟩
  unfold goto at result
  split at result
  · next frames =>
    obtain ⟨-, rfl⟩ := EStateM.Result.ok.inj result
    rw [frames]
    exact ⟨.moved _ _ _, Nat.le_refl _, fun _ _ => rfl⟩
  · exact nomatch result

instance (c : ClassRef) (f : Table Closure → Table Closure) : Shallow (modifyMethods c f) 0 := by
  refine shallow_of_same fun result => ?_
  unfold modifyMethods at result
  split at result
  · obtain ⟨-, rfl⟩ := EStateM.Result.ok.inj result
    exact ⟨rfl, rfl⟩
  · exact nomatch result

instance (serial : Nat) (name : String) (v : Value) : Shallow (setField serial name v) 0 := by
  refine shallow_of_same fun result => ?_
  unfold setField at result
  split at result
  · obtain ⟨-, rfl⟩ := EStateM.Result.ok.inj result
    exact ⟨rfl, rfl⟩
  · exact nomatch result

instance (slot : Nat) : Shallow (captureSlot slot) 0 := by
  refine shallow_of_same fun result => ?_
  unfold captureSlot at result
  dsimp only at result
  split at result <;> obtain ⟨-, rfl⟩ := EStateM.Result.ok.inj result <;> exact ⟨rfl, rfl⟩

instance (last : Nat) : Shallow (closeCells last) 0 := by
  refine shallow_of_same fun result => ?_
  unfold closeCells at result
  split at result
  · obtain ⟨-, rfl⟩ := EStateM.Result.ok.inj result
    exact ⟨rfl, rfl⟩
  · exact nomatch result

instance : Shallow popClass 1 := by
  unfold popClass
  refine shallow_bind 1 0 inferInstance fun v => ?_
  split <;> infer_instance

instance (captures : List Capture) (found : Array Nat) : Shallow (captureAll captures found) 0 := by
  induction captures generalizing found with
  | nil => exact inferInstanceAs (Shallow (pure found) 0)
  | cons capture captures ih =>
    rw [captureAll]
    split
    · exact shallow_bind 0 0 inferInstance fun f => shallow_bind 0 0 inferInstance fun cell => ih _
    · exact shallow_bind 0 0 inferInstance fun cell => ih _

instance (c : ClassRef) (name : String) : Shallow (bindMethod c name) 1 := by
  unfold bindMethod
  exact shallow_bind 0 1 inferInstance fun closure =>
    shallow_bind 1 0 inferInstance fun receiver =>
      shallow_bind 0 0 (shallow_modifyGet fun m => ⟨rfl, rfl⟩) fun v => inferInstance

end Actions

/-! ### Instructions -/

section Instructions

lemma shallow_fails (error : RuntimeError) (d : Nat) : Shallow (fail error : Action α) d :=
  Shallow.loosen inferInstance (Nat.zero_le d)

lemma shallow_failsUnread (error : RuntimeError) (d : Nat) : Shallow (failUnread error : Action α) d := by
  unfold failUnread
  exact Shallow.loosen inferInstance (Nat.zero_le d)

instance (f : Float → Float → Value) : Shallow (numeric f) 2 := by
  unfold numeric
  refine shallow_bind 0 2 inferInstance fun a => shallow_bind 0 2 inferInstance fun b => ?_
  split
  · infer_instance
  · exact shallow_fails _ 2

instance : Shallow add 2 := by
  unfold add
  refine shallow_bind 0 2 inferInstance fun a => shallow_bind 0 2 inferInstance fun b => ?_
  split
  · infer_instance
  · exact shallow_bind 0 2 (shallow_modifyGet fun m => ⟨rfl, rfl⟩) fun joined => inferInstance
  · exact shallow_fails _ 2

instance : Shallow negate 1 := by
  unfold negate
  refine shallow_bind 0 1 inferInstance fun a => ?_
  split
  · infer_instance
  · exact shallow_fails _ 1

instance (name : String) : Shallow (readGlobal name) 0 := by
  unfold readGlobal
  refine shallow_bind 0 0 inferInstance fun m => ?_
  split <;> infer_instance

instance (name : String) : Shallow (defineGlobal name) 1 := by
  unfold defineGlobal
  exact shallow_bind 1 0 inferInstance fun v => shallow_modify fun m => ⟨rfl, rfl⟩

instance (name : String) : Shallow (writeGlobal name) 0 := by
  unfold writeGlobal
  refine shallow_bind 0 0 inferInstance fun m => ?_
  split
  · exact shallow_bind 0 0 inferInstance fun v => shallow_modify fun m => ⟨rfl, rfl⟩
  · infer_instance

instance (index : UInt8) : Shallow (readProperty index) 1 := by
  unfold readProperty
  refine shallow_bind 0 1 inferInstance fun v => ?_
  split
  · refine shallow_bind 0 1 inferInstance fun name => shallow_bind 0 1 inferInstance fun field => ?_
    split <;> infer_instance
  · exact shallow_failsUnread _ 1

instance (index : UInt8) : Shallow (writeProperty index) 2 := by
  unfold writeProperty
  refine shallow_bind 0 2 inferInstance fun v => ?_
  split
  · infer_instance
  · exact shallow_failsUnread _ 2

instance (index : UInt8) (captures : List Capture) : Shallow (pushClosure index captures) 0 := by
  unfold pushClosure
  refine shallow_bind 0 0 inferInstance fun c => ?_
  split
  · exact shallow_bind 0 0 inferInstance fun captured =>
      shallow_bind 0 0 (shallow_modifyGet fun m => ⟨rfl, rfl⟩) fun closure => inferInstance
  · infer_instance

instance (index : UInt8) : Shallow (pushClass index) 0 := by
  unfold pushClass
  exact shallow_bind 0 0 inferInstance fun name =>
    shallow_bind 0 0 (shallow_modifyGet fun m => ⟨rfl, rfl⟩) fun c => inferInstance

instance : Shallow inherit 1 := by
  unfold inherit
  refine shallow_bind 0 1 inferInstance fun v => ?_
  split
  · infer_instance
  · exact shallow_fails _ 1

instance (index : UInt8) : Shallow (addMethod index) 1 := by
  unfold addMethod
  refine shallow_bind 0 1 inferInstance fun name => shallow_bind 1 0 inferInstance fun v => ?_
  split
  · refine shallow_bind 0 0 inferInstance fun v => ?_
    split <;> infer_instance
  · infer_instance

end Instructions

end Lox.Machine

namespace Lox

/-- The instruction works at the top of the stack and neither calls nor returns. -/
def Instr.IsPlain : Instr → Prop
  | .setLocal _ | .setUpvalue _ | .call _ | .invoke _ _ | .superInvoke _ _ | .ret => False
  | _ => True

end Lox

namespace Lox.Machine

variable {α β : Type} {m m' m'' : Machine}

/-- The values that an instruction does not take off stay as they are. -/
lemma exec_pops {i : Instr} (plain : i.IsPlain) : Shallow (exec i) i.pops := by
  have within : ∀ {d}, Shallow (exec i) d → d ≤ i.pops → Shallow (exec i) i.pops :=
    fun shallow enough => shallow.loosen enough
  cases i with
  | setLocal | setUpvalue | call | invoke | superInvoke | ret => exact absurd plain id
  | print =>
    exact shallow_bind 1 0 inferInstance fun v => shallow_modify fun m => ⟨rfl, rfl⟩
  | jumpIfFalse distance =>
    exact within (d := 0) (shallow_bind 0 0 inferInstance fun v => by
      split <;> exact inferInstance) (Nat.zero_le _)
  | _ =>
    refine within (by rw [exec]; infer_instance) ?_
    simp [Instr.pops]

lemma exec_shallow {i : Instr} (plain : i.IsPlain) : Shallow (exec i) i.reach :=
  (exec_pops plain).loosen i.pops_le_reach

end Lox.Machine
