import Lox.Proofs.Compile.Tidiness
import Lox.Proofs.Machine.Transfer

/-!
# String objects in a run

A run adds to the string table and takes nothing away, whatever the code is and whatever the functions of
the host answer (`Interning`).  The strings that functions of the host make stay out of the table, and what
two strings are joined to is the object of the table (`Joins.step`).
-/

namespace Lox

/-- Objects that stay out of the table take numbers. -/
lemma StringTable.grows_aside (t : StringTable) (count : Nat) : t.Grows { t with next := t.next + count } :=
  ⟨fun _ _ there => there, fun canonical =>
    ⟨fun there => Nat.lt_add_right count (canonical.numbered there), canonical.distinct⟩⟩

namespace Machine

variable {α β : Type}

/-- Whatever the action does, no object of the string table is lost or replaced. -/
class Interning (act : Action α) : Prop where
  grows : ∀ m : Machine, m.strings.Grows (left (act m)).strings

section Combinators

lemma interning_of_same {act : Action α} (same : ∀ m, (left (act m)).strings = m.strings) : Interning act :=
  ⟨fun m => same m ▸ .refl _⟩

lemma interning_bind {act : Action α} {f : α → Action β} (first : Interning act)
    (second : ∀ a, Interning (f a)) : Interning (act >>= f) := by
  refine ⟨fun m => ?_⟩
  have grows := first.grows m
  rw [bind_apply]
  cases result : act m with
  | ok a m' =>
    rw [result] at grows
    exact grows.trans ((second a).grows m')
  | error e m' =>
    rw [result] at grows
    exact grows

instance (act : Action α) (f : α → Action β) [first : Interning act] [second : ∀ a, Interning (f a)] :
    Interning (act >>= f) :=
  interning_bind first second

instance (a : α) : Interning (pure a : Action α) := interning_of_same fun _ => rfl

instance : Interning (get : Action Machine) := interning_of_same fun _ => rfl

instance (stop : Stop) : Interning (throw stop : Action α) := interning_of_same fun _ => rfl

instance (error : RuntimeError) : Interning (fail error : Action α) := interning_of_same fun _ => rfl

instance (defect : Defect) : Interning (broken defect : Action α) := interning_of_same fun _ => rfl

instance (defect : Defect) (a? : Option α) : Interning (orBroken defect a?) := by
  cases a? <;> rw [orBroken] <;> infer_instance

instance (c : Prop) [Decidable c] (x y : Action α) [Interning x] [Interning y] :
    Interning (if c then x else y) := by
  split <;> infer_instance

lemma interning_modifyGet {f : Machine → α × Machine} (grows : ∀ m : Machine, m.strings.Grows (f m).2.strings) :
    Interning (modifyGet f : Action α) :=
  ⟨grows⟩

lemma interning_modify {f : Machine → Machine} (same : ∀ m, (f m).strings = m.strings) :
    Interning (modify f : Action Unit) :=
  interning_of_same same

end Combinators

/-! ## The stack, the calls and the cells -/

section Storage

instance (v : Value) : Interning (push v) := interning_of_same fun _ => rfl

instance (size : Nat) : Interning (cutStack size) := interning_of_same fun _ => rfl

instance : Interning pop := interning_of_same fun m => by unfold pop; split <;> rfl

instance (distance : Nat) : Interning (peek distance) :=
  interning_of_same fun m => by unfold peek; split <;> rfl

instance (distance : Nat) (v : Value) : Interning (replace distance v) :=
  interning_of_same fun m => by unfold replace; split <;> rfl

instance (slot : Nat) : Interning (readSlot slot) :=
  interning_of_same fun m => by unfold readSlot; split <;> rfl

instance (slot : Nat) (v : Value) : Interning (writeSlot slot v) :=
  interning_of_same fun m => by unfold writeSlot; split <;> rfl

instance : Interning frame := interning_of_same fun m => by unfold frame; split <;> rfl

instance (ip : Nat) : Interning (goto ip) := interning_of_same fun m => by unfold goto; split <;> rfl

instance : Interning fetch := by
  refine interning_of_same fun m => ?_
  unfold fetch
  split
  · rfl
  · dsimp only
    split
    · rfl
    · split <;> rfl

instance (closure : Closure) (count : UInt8) : Interning (call closure count) := by
  refine interning_of_same fun m => ?_
  unfold call
  dsimp only
  split
  · rfl
  · split
    · rfl
    · split <;> rfl

instance (c : ClassRef) (f : Table Closure → Table Closure) : Interning (modifyMethods c f) :=
  interning_of_same fun m => by unfold modifyMethods; split <;> rfl

instance (serial : Nat) (name : String) (v : Value) : Interning (setField serial name v) :=
  interning_of_same fun m => by unfold setField; split <;> rfl

instance (slot : Nat) : Interning (captureSlot slot) := by
  refine interning_of_same fun m => ?_
  unfold captureSlot
  dsimp only
  split <;> rfl

instance (last : Nat) : Interning (closeCells last) :=
  interning_of_same fun m => by unfold closeCells; split <;> rfl

instance (index : UInt8) : Interning (constant index) := by
  unfold constant
  infer_instance

instance (index : UInt8) : Interning (name index) := by
  unfold name
  refine interning_bind inferInstance fun c => ?_
  split <;> infer_instance

instance (index : UInt8) : Interning (capturedCell index) := by
  unfold capturedCell
  infer_instance

instance (cell : Nat) : Interning (readCell cell) := by
  unfold readCell
  refine interning_bind inferInstance fun m => interning_bind inferInstance fun c => ?_
  split <;> infer_instance

instance (cell : Nat) (v : Value) : Interning (writeCell cell v) := by
  unfold writeCell
  refine interning_bind inferInstance fun m => interning_bind inferInstance fun c => ?_
  split
  · infer_instance
  · exact interning_modify fun _ => rfl

instance (captures : List Capture) (found : Array Nat) : Interning (captureAll captures found) := by
  induction captures generalizing found with
  | nil => exact inferInstanceAs (Interning (pure found))
  | cons capture captures ih =>
    rw [captureAll]
    infer_instance

end Storage

/-! ## Objects and calls -/

section Objects

/-- A string that a function of the host makes stays out of the table. -/
instance (b : Blueprint) : Interning (make b) := by
  refine ⟨fun m => ?_⟩
  cases b with
  | string => exact m.strings.grows_aside 1
  | objects new v => exact m.strings.grows_aside new.strings
  | _ => exact .refl _

instance : Interning popClass := by
  unfold popClass
  refine interning_bind inferInstance fun v => ?_
  split <;> infer_instance

instance (c : ClassRef) : Interning (methodsOf c) := by
  unfold methodsOf
  infer_instance

instance (c : ClassRef) (name : String) : Interning (method c name) := by
  unfold method
  refine interning_bind inferInstance fun methods => ?_
  split <;> infer_instance

instance (serial : Nat) (name : String) : Interning (field? serial name) := by
  unfold field?
  infer_instance

instance (function : Nat) (arguments : Array Value) (answer? : Option Value) :
    Interning (modify (·.remember function arguments answer?) : Action Unit) :=
  interning_modify fun _ => rfl

instance (f : NativeRef) (count : UInt8) : Interning (callNative f count) := by
  unfold callNative
  split
  · infer_instance
  · refine interning_bind inferInstance fun m => interning_bind inferInstance fun body => ?_
    dsimp only
    split <;> infer_instance

instance (c : ClassRef) (count : UInt8) : Interning (construct c count) := by
  unfold construct
  refine interning_bind (interning_modifyGet fun m => .refl _) fun v =>
    interning_bind inferInstance fun _ => interning_bind inferInstance fun methods => ?_
  split <;> infer_instance

instance (callee : Value) (count : UInt8) : Interning (callValue callee count) := by
  unfold callValue
  split <;> infer_instance

instance (c : ClassRef) (name : String) (count : UInt8) : Interning (invokeFromClass c name count) := by
  unfold invokeFromClass
  infer_instance

instance (name : String) (count : UInt8) : Interning (invoke name count) := by
  unfold invoke
  refine interning_bind inferInstance fun v => ?_
  split
  · refine interning_bind inferInstance fun field => ?_
    split <;> infer_instance
  · infer_instance

instance (c : ClassRef) (name : String) : Interning (bindMethod c name) := by
  unfold bindMethod
  exact interning_bind inferInstance fun closure => interning_bind inferInstance fun receiver =>
    interning_bind (interning_modifyGet fun m => .refl _) fun v => inferInstance

end Objects

/-! ## Instructions -/

section Instructions

instance (f : Float → Float → Value) : Interning (numeric f) := by
  unfold numeric
  refine interning_bind inferInstance fun a => interning_bind inferInstance fun b => ?_
  split <;> infer_instance

/-- The joined string is asked of the table. -/
instance : Interning add := by
  unfold add
  refine interning_bind inferInstance fun a => interning_bind inferInstance fun b => ?_
  split
  · infer_instance
  · exact interning_bind (interning_modifyGet fun m => m.strings.grows_intern _) fun v => inferInstance
  · infer_instance

instance : Interning negate := by
  unfold negate
  refine interning_bind inferInstance fun a => ?_
  split <;> infer_instance

instance (name : String) : Interning (readGlobal name) := by
  unfold readGlobal
  refine interning_bind inferInstance fun m => ?_
  split <;> infer_instance

instance (name : String) : Interning (defineGlobal name) := by
  unfold defineGlobal
  exact interning_bind inferInstance fun v => interning_modify fun m => rfl

instance (name : String) : Interning (writeGlobal name) := by
  unfold writeGlobal
  refine interning_bind inferInstance fun m => ?_
  split
  · exact interning_bind inferInstance fun v => interning_modify fun m => rfl
  · infer_instance

instance (error : RuntimeError) : Interning (failUnread error : Action α) := by
  unfold failUnread
  infer_instance

instance (index : UInt8) : Interning (readProperty index) := by
  unfold readProperty
  refine interning_bind inferInstance fun v => ?_
  split
  · refine interning_bind inferInstance fun name => interning_bind inferInstance fun field => ?_
    split <;> infer_instance
  · infer_instance

instance (index : UInt8) : Interning (writeProperty index) := by
  unfold writeProperty
  refine interning_bind inferInstance fun v => ?_
  split <;> infer_instance

instance (index : UInt8) (captures : List Capture) : Interning (pushClosure index captures) := by
  unfold pushClosure
  refine interning_bind inferInstance fun c => ?_
  split
  · exact interning_bind inferInstance fun captured =>
      interning_bind (interning_modifyGet fun m => .refl _) fun closure => inferInstance
  · infer_instance

instance : Interning ret := by
  unfold ret
  exact interning_bind inferInstance fun result => interning_bind inferInstance fun f =>
    interning_bind (interning_modify fun m => rfl) fun _ => inferInstance

instance (index : UInt8) : Interning (pushClass index) := by
  unfold pushClass
  exact interning_bind inferInstance fun name =>
    interning_bind (interning_modifyGet fun m => .refl _) fun c => inferInstance

instance : Interning inherit := by
  unfold inherit
  refine interning_bind inferInstance fun v => ?_
  split <;> infer_instance

instance (index : UInt8) : Interning (addMethod index) := by
  unfold addMethod
  refine interning_bind inferInstance fun name => interning_bind inferInstance fun v => ?_
  split
  · refine interning_bind inferInstance fun v => ?_
    split <;> infer_instance
  · infer_instance

instance (i : Instr) : Interning (exec i) := by
  cases i with
  | print =>
    exact interning_bind inferInstance fun v => interning_modify fun m => rfl
  | _ =>
    rw [exec]
    infer_instance

instance : Interning step := by
  unfold step
  infer_instance

/-- Two strings give way to the object of the table for both contents together. -/
lemma add_joins {m : Machine} {rest : Array Value} {a b : StringObject}
    (operands : m.stack = (rest.push (.string a)).push (.string b)) :
    add m = .ok () { m with
      stack := rest.push (.string (m.strings.intern (a.content ++ b.content)).1)
      strings := (m.strings.intern (a.content ++ b.content)).2 } := by
  have first : peek 1 m = .ok (.string a) m := by
    simp [peek, operands, Array.getElem_push]
  have second : peek 0 m = .ok (.string b) m := by
    simp [peek, operands, Array.getElem_push]
  unfold add
  rw [bind_apply, first]
  show ((peek 0 >>= _ : Action Unit) m) = _
  rw [bind_apply, second]
  show (do let _ ← pop; let _ ← pop; push (.string (m.strings.intern (a.content ++ b.content)).1) : Action Unit)
    { m with strings := (m.strings.intern (a.content ++ b.content)).2 } = _
  simp [bind_apply, pop, push, operands]

end Instructions

/-! ## Joining two strings -/

/-- Beyond the code there are no opcodes but that of the first constant. -/
lemma inside_of_instrAt? {c : Chunk Constant} {offset : Nat} {i : Instr} (decoded : c.instrAt? offset = some i)
    (other : i ≠ .constant 0) : offset < c.size := by
  by_contra beyond
  have none : ∀ o, offset ≤ o → c.byteAt o = 0 := by
    intro o past
    rw [Chunk.byteAt, Array.getD_eq_getD_getElem?,
      Array.getElem?_eq_none (Nat.le_trans (Nat.le_of_not_lt beyond) past)]
    rfl
  rw [Chunk.instrAt?, none offset (Nat.le_refl _), none (offset + 1) (Nat.le_succ _)] at decoded
  exact other (Option.some.inj decoded).symm

/-- The running call is about to add, and what it adds are two strings. -/
structure Joins (m : Machine) (rest : Array Value) (a b : StringObject) : Prop where
  next : ∃ f callers, m.frames = f :: callers ∧ f.closure.prototype.chunk.instrAt? f.ip = some .add
  operands : m.stack = (rest.push (.string a)).push (.string b)

/-- What two strings are joined to is the object of the table for both contents together. -/
lemma Joins.step {m : Machine} {rest : Array Value} {a b : StringObject} (joins : m.Joins rest a b) :
    ∃ object m', m.step = .ok () m' ∧ m'.stack = rest.push (.string object) ∧
      object.content = a.content ++ b.content ∧ m'.strings.Has object := by
  obtain ⟨⟨f, callers, frames, decoded⟩, operands⟩ := joins
  have bound : f.ip + Instr.add.size ≤ f.closure.prototype.chunk.size := inside_of_instrAt? decoded nofun
  have adds : m.step = add (m.past f callers .add) := by
    rw [Machine.step, bind_apply, fetch_apply frames decoded bound]
    rfl
  rw [adds, @add_joins (m.past f callers .add) _ _ _ operands]
  exact ⟨_, _, rfl, rfl, StringTable.content_intern _ _, StringTable.has_intern _ _⟩

end Machine

end Lox
