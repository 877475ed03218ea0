import Lox.Proofs.Machine.Calls

/-!
# Steps keep the machine ready

For each way in which an instruction may change the shape of the stack there is a lemma that the machine
does as much, with the values that the instruction counts on at their places.  These are the
instructions after which the running call goes on with the next one.
-/

namespace Lox.Machine

variable {bare : Prop} {c : Census} {T : Surroundings} {E : Shapes} {f : Frame}
  {callers : List Frame} {below slots : List Slot} {g : Option String} {σ τ : Shape} {s : Slot}
  {k k' : Kind} {m : Machine} {v : Value} {index : UInt8} {x : String}

/-- The running call goes on with a stack of this shape. -/
def GoesOn (bare : Prop) (T : Surroundings) (E : Shapes) (f : Frame) (callers : List Frame)
    (below : List Slot) (τ : Shape) (m : Machine) : Prop :=
  ∃ c, Active bare c T E f callers below τ m

lemma Active.goesOn (h : Active bare c T E f callers below τ m) :
    GoesOn bare T E f callers below τ m := ⟨c, h⟩

namespace Active

/-! ## Values and variables -/

/-- A value is pushed, and the global may be forgotten. -/
lemma pushes (h : Active bare c T E f callers below ⟨slots, g⟩ m) (holds : k.Holds v)
    (sound : v.Sound bare c) :
    Yields bare (fun _ m' => GoesOn bare T E f callers below ⟨⟨k, false⟩ :: slots, g⟩ m')
      (push v m) :=
  (h.yields_push false holds sound).mono fun _ _ there => there.goesOn

lemma exec_constant (h : Active bare c T E f callers below ⟨slots, g⟩ m) {a : Constant}
    (entry : T.pool[index.toNat]? = some a) (plain : ∀ p, a ≠ .prototype p) :
    Yields bare (fun _ m' => GoesOn bare T E f callers below ⟨.plain :: slots, none⟩ m')
      (exec (.constant index) m) := by
  refine Yields.bind (h.yields_constant entry) ?_
  rintro _ _ ⟨rfl, rfl⟩
  refine h.forget.pushes trivial ?_
  cases a with
  | number | string => trivial
  | prototype p => exact absurd rfl (plain p)

lemma exec_literal (h : Active bare c T E f callers below ⟨slots, g⟩ m) {i : Instr}
    (literal : i.IsLiteral) :
    Yields bare (fun _ m' => GoesOn bare T E f callers below ⟨.plain :: slots, none⟩ m')
      (exec i m) := by
  cases literal <;> exact h.forget.pushes trivial trivial

lemma exec_pop (h : Active bare c T E f callers below ⟨⟨k, false⟩ :: slots, g⟩ m) :
    Yields bare (fun _ m' => GoesOn bare T E f callers below ⟨slots, none⟩ m') (exec .pop m) := by
  refine Yields.bind h.yields_pop ?_
  rintro v m' ⟨-, -, h'⟩
  exact h'.forget.goesOn

lemma exec_getLocal (h : Active bare c T E f callers below ⟨slots, g⟩ m)
    (found : fromBottom? slots index.toNat = some s) :
    Yields bare (fun _ m' => GoesOn bare T E f callers below ⟨⟨s.kind, false⟩ :: slots, g⟩ m')
      (exec (.getLocal index) m) := by
  refine Yields.bind h.yields_frame ?_
  rintro _ _ ⟨rfl, rfl⟩
  refine Yields.bind (h.yields_readSlot (h.place found)) ?_
  rintro v _ ⟨rfl, holds, sound⟩
  exact h.pushes holds sound

lemma exec_setLocal (h : Active bare c T E f callers below ⟨slots, g⟩ m) (nonempty : slots ≠ [])
    {shared : Bool} (found : fromBottom? slots index.toNat = some ⟨.any, shared⟩) :
    Yields bare (fun _ m' => GoesOn bare T E f callers below ⟨slots, none⟩ m')
      (exec (.setLocal index) m) := by
  obtain ⟨s, rest, rfl⟩ := List.exists_cons_of_ne_nil nonempty
  refine Yields.bind h.yields_frame ?_
  rintro _ _ ⟨rfl, rfl⟩
  refine Yields.bind (h.yields_peek (d := 0) rfl) ?_
  rintro v _ ⟨rfl, -, sound⟩
  exact (h.yields_writeSlot (h.place found) sound).mono fun _ _ there => there.forget.goesOn

lemma exec_getGlobal (h : Active bare c T E f callers below ⟨slots, g⟩ m)
    (named : T.IsName index x) :
    Yields bare (fun _ m' => GoesOn bare T E f callers below
        ⟨⟨if g = some x then .cls else .any, false⟩ :: slots, g⟩ m')
      (exec (.getGlobal index) m) := by
  refine Yields.bind (h.yields_name named) ?_
  rintro _ _ ⟨rfl, rfl⟩
  rw [readGlobal, bind_apply, get_apply]
  dsimp only
  cases found : m.globals.find? x with
  | none => exact h.fails _
  | some v =>
    refine h.pushes ?_ (h.memory.objects.globals x v found)
    by_cases known : g = some x
    · obtain ⟨r, there⟩ := h.global x known
      rw [if_pos known]
      exact ⟨r, Option.some.inj (found.symm.trans there)⟩
    · rw [if_neg known]
      trivial

/-- A global takes a value. -/
lemma insertGlobal (h : Active bare c T E f callers below ⟨slots, g⟩ m) (x : String)
    (sound : v.Sound bare c) :
    Active bare c T E f callers below ⟨slots, none⟩
      { m with globals := m.globals.insert x v } where
  frames := h.frames
  calls := h.calls
  base := h.base
  suspended := h.suspended
  memory := ⟨h.memory.objects.setGlobal x sound, h.memory.cells, h.memory.stack⟩
  global _ known := nomatch known

lemma exec_defineGlobal (h : Active bare c T E f callers below ⟨⟨k, false⟩ :: slots, g⟩ m)
    (named : T.IsName index x) :
    Yields bare (fun _ m' => GoesOn bare T E f callers below
        ⟨slots, if k = .cls then some x else none⟩ m')
      (exec (.defineGlobal index) m) := by
  refine Yields.bind (h.yields_name named) ?_
  rintro _ _ ⟨rfl, rfl⟩
  refine Yields.bind h.yields_pop ?_
  rintro v m' ⟨holds, sound, h'⟩
  refine ⟨c, { h'.insertGlobal x sound with global := fun y known => ?_ }⟩
  dsimp only at known
  split at known
  · next cls =>
    obtain rfl := Option.some.inj known
    rw [cls] at holds
    obtain ⟨r, rfl⟩ := holds
    exact ⟨r, by rw [Table.find?_insert, if_pos rfl]⟩
  · exact nomatch known

lemma exec_setGlobal (h : Active bare c T E f callers below ⟨slots, g⟩ m) (nonempty : slots ≠ [])
    (named : T.IsName index x) :
    Yields bare (fun _ m' => GoesOn bare T E f callers below ⟨slots, none⟩ m')
      (exec (.setGlobal index) m) := by
  obtain ⟨s, rest, rfl⟩ := List.exists_cons_of_ne_nil nonempty
  refine Yields.bind (h.yields_name named) ?_
  rintro _ _ ⟨rfl, rfl⟩
  show Yields bare _ ((if m.globals.contains x then (do
      let v ← peek 0
      modify fun m => { m with globals := m.globals.insert x v })
    else fail (.undefinedVariable x) : Action Unit) m)
  split
  · refine Yields.bind (h.yields_peek (d := 0) rfl) ?_
    rintro v _ ⟨rfl, -, sound⟩
    exact (h.insertGlobal x sound).goesOn
  · exact h.fails _

/-! ## Captured variables -/

lemma yields_capturedCell (h : Active bare c T E f callers below σ m)
    (bound : index.toNat < T.captureCount) :
    Yields bare (fun cell m' => c.cells[cell]? = some (T.captured index.toNat) ∧ m = m')
      (capturedCell index m) := by
  refine Yields.bind h.yields_frame ?_
  rintro _ _ ⟨rfl, rfl⟩
  rw [← h.calls.captures.size] at bound
  have there := Array.getElem?_eq_getElem bound
  rw [there]
  exact ⟨h.calls.captures.cells _ _ there, rfl⟩

/-- A cell whose variable is of some kind. -/
lemma cell (h : Active bare c T E f callers below σ m) {cell : Nat}
    (known : c.cells[cell]? = some k) : ∃ content, m.cells[cell]? = some content := by
  have bound := (List.getElem?_eq_some_iff.1 known).1
  rw [h.memory.cells.size] at bound
  exact ⟨_, Array.getElem?_eq_getElem bound⟩

lemma yields_readCell (h : Active bare c T E f callers below ⟨slots, g⟩ m) {cell : Nat}
    (known : c.cells[cell]? = some k) :
    Yields bare (fun v m' => m = m' ∧ k.Holds v ∧ v.Sound bare c) (readCell cell m) := by
  obtain ⟨content, there⟩ := h.cell known
  rw [readCell_apply, there]
  cases content with
  | opened slot => exact h.yields_readSlot (h.memory.cells.opened there known)
  | closed v => exact ⟨rfl, h.memory.cells.closed there known⟩

lemma exec_getUpvalue (h : Active bare c T E f callers below ⟨slots, g⟩ m)
    (bound : index.toNat < T.captureCount) :
    Yields bare (fun _ m' => GoesOn bare T E f callers below
        ⟨⟨T.captured index.toNat, false⟩ :: slots, g⟩ m')
      (exec (.getUpvalue index) m) := by
  refine Yields.bind (h.yields_capturedCell bound) ?_
  rintro cell _ ⟨known, rfl⟩
  refine Yields.bind (h.yields_readCell known) ?_
  rintro v _ ⟨rfl, holds, sound⟩
  exact h.pushes holds sound

lemma exec_setUpvalue (h : Active bare c T E f callers below ⟨slots, g⟩ m) (nonempty : slots ≠ [])
    (bound : index.toNat < T.captureCount) (any : T.captured index.toNat = .any) :
    Yields bare (fun _ m' => GoesOn bare T E f callers below ⟨slots, none⟩ m')
      (exec (.setUpvalue index) m) := by
  obtain ⟨s, rest, rfl⟩ := List.exists_cons_of_ne_nil nonempty
  refine Yields.bind (h.yields_capturedCell bound) ?_
  rintro cell _ ⟨known, rfl⟩
  refine Yields.bind (h.yields_peek (d := 0) rfl) ?_
  rintro v _ ⟨rfl, -, sound⟩
  rw [any] at known
  obtain ⟨content, there⟩ := h.cell known
  rw [writeCell_apply, there]
  cases content with
  | opened slot =>
    exact (h.yields_writeSlot (h.memory.cells.opened there known) sound).mono
      fun _ _ there => there.forget.goesOn
  | closed w =>
    refine ⟨c, h.forget.change (.refl c) rfl rfl ?_ fun _ known => known⟩
    exact ⟨h.memory.objects, h.memory.cells.reclose there known sound, h.memory.stack⟩

/-! ## Classes and instances -/

lemma yields_methodsOf (h : Active bare c T E f callers below σ m) {r : ClassRef}
    (sound : (Value.cls r).Sound bare c) :
    Yields bare (fun t m' => m = m' ∧ ∀ x w, t.find? x = some w → w.Sound bare c)
      (methodsOf r m) := by
  have bound : r.serial < m.methods.size := Nat.lt_of_lt_of_eq sound h.memory.objects.classes
  show Yields bare _ (orBroken .badObject m.methods[r.serial]? m)
  rw [Array.getElem?_eq_getElem bound]
  exact ⟨rfl, h.memory.objects.methods _ (Array.getElem_mem bound)⟩

lemma yields_method (h : Active bare c T E f callers below σ m) {r : ClassRef}
    (sound : (Value.cls r).Sound bare c) (x : String) :
    Yields bare (fun w m' => m = m' ∧ w.Sound bare c) (method r x m) := by
  refine Yields.bind (h.yields_methodsOf sound) ?_
  rintro t _ ⟨rfl, methods⟩
  cases found : t.find? x with
  | none => exact h.fails _
  | some w => exact ⟨rfl, methods x w found⟩

lemma yields_field (h : Active bare c T E f callers below σ m) {serial : Nat} {r : ClassRef}
    (sound : (Value.inst serial r).Sound bare c) (x : String) :
    Yields bare (fun v? m' => m = m' ∧ ∀ v, v? = some v → v.Sound bare c)
      (field? serial x m) := by
  have bound : serial < m.fields.size := Nat.lt_of_lt_of_eq sound.1 h.memory.objects.instances
  show Yields bare _ ((orBroken .badObject m.fields[serial]? >>= _ : Action (Option Value)) m)
  rw [Array.getElem?_eq_getElem bound]
  exact ⟨rfl, h.memory.objects.fields _ (Array.getElem_mem bound) x⟩

lemma yields_setField (h : Active bare c T E f callers below σ m) {serial : Nat} {r : ClassRef}
    (sound : (Value.inst serial r).Sound bare c) (x : String) (sound' : v.Sound bare c) :
    Yields bare (fun _ m' => Active bare c T E f callers below σ m') (setField serial x v m) := by
  have bound : serial < m.fields.size := Nat.lt_of_lt_of_eq sound.1 h.memory.objects.instances
  rw [setField, if_pos bound]
  refine h.change (.refl c) rfl rfl ⟨?_, h.memory.cells, h.memory.stack⟩ fun _ known => known
  refine h.memory.objects.setFields serial (fun t => t.insert x v) fun t there y w found => ?_
  rw [Table.find?_insert] at found
  split at found
  · rw [← Option.some.inj found]
    exact sound'
  · exact h.memory.objects.fields t there y w found

lemma yields_modifyMethods (h : Active bare c T E f callers below σ m) {r : ClassRef}
    (sound : (Value.cls r).Sound bare c) {change : Table Closure → Table Closure}
    (sound' : ∀ t : Table Closure, (∀ x w, t.find? x = some w → w.Sound bare c) →
      ∀ x w, (change t).find? x = some w → w.Sound bare c) :
    Yields bare (fun _ m' => Active bare c T E f callers below σ m') (modifyMethods r change m) := by
  have bound : r.serial < m.methods.size := Nat.lt_of_lt_of_eq sound h.memory.objects.classes
  rw [modifyMethods, if_pos bound]
  refine h.change (.refl c) rfl rfl ⟨?_, h.memory.cells, h.memory.stack⟩ fun _ known => known
  exact h.memory.objects.setMethods r.serial change fun t there =>
    sound' t (h.memory.objects.methods t there)

lemma yields_popClass (h : Active bare c T E f callers below ⟨⟨.cls, false⟩ :: slots, g⟩ m) :
    Yields bare (fun r m' => (Value.cls r).Sound bare c ∧
      Active bare c T E f callers below ⟨slots, g⟩ m') (popClass m) := by
  refine Yields.bind h.yields_pop ?_
  rintro _ m' ⟨⟨r, rfl⟩, sound, h'⟩
  exact ⟨sound, h'⟩

/-- The receiver is replaced by a method. -/
lemma yields_bindMethod (h : Active bare c T E f callers below ⟨⟨k, false⟩ :: slots, g⟩ m)
    {r : ClassRef} (sound : (Value.cls r).Sound bare c) (x : String) :
    Yields bare (fun _ m' => GoesOn bare T E f callers below ⟨.plain :: slots, none⟩ m')
      (bindMethod r x m) := by
  refine Yields.bind (h.yields_method sound x) ?_
  rintro w _ ⟨rfl, sound'⟩
  refine Yields.bind h.yields_pop ?_
  rintro receiver m₁ ⟨-, sound'', h₁⟩
  have h₂ : Active bare c T E f callers below ⟨slots, none⟩ (m₁.newBound receiver w).2 :=
    h₁.forget.change (.refl c) rfl rfl
      ⟨h₁.memory.objects, h₁.memory.cells, h₁.memory.stack⟩ fun _ known => known
  exact h₂.pushes trivial ⟨sound'', sound'⟩

lemma exec_getProperty (h : Active bare c T E f callers below ⟨⟨k, false⟩ :: slots, g⟩ m)
    (named : T.IsName index x) :
    Yields bare (fun _ m' => GoesOn bare T E f callers below ⟨.plain :: slots, none⟩ m')
      (exec (.getProperty index) m) := by
  refine Yields.bind (h.yields_peek (d := 0) rfl) ?_
  rintro v _ ⟨rfl, -, sound⟩
  cases v with
  | inst serial r =>
    refine Yields.bind (h.yields_name named) ?_
    rintro _ _ ⟨rfl, rfl⟩
    refine Yields.bind (h.yields_field sound _) ?_
    rintro (_ | v) _ ⟨rfl, fields⟩
    · exact h.yields_bindMethod sound.2 _
    · refine Yields.bind h.yields_pop ?_
      rintro _ m' ⟨-, -, h'⟩
      exact h'.forget.pushes trivial (fields v rfl)
  | _ => exact h.failsUnread _

lemma exec_setProperty
    (h : Active bare c T E f callers below ⟨⟨k, false⟩ :: ⟨k', false⟩ :: slots, g⟩ m)
    (named : T.IsName index x) :
    Yields bare (fun _ m' => GoesOn bare T E f callers below ⟨.plain :: slots, none⟩ m')
      (exec (.setProperty index) m) := by
  refine Yields.bind (h.yields_peek (d := 1) rfl) ?_
  rintro v _ ⟨rfl, -, sound⟩
  cases v with
  | inst serial r =>
    refine Yields.bind (h.yields_name named) ?_
    rintro _ _ ⟨rfl, rfl⟩
    refine Yields.bind h.yields_pop ?_
    rintro v m₁ ⟨-, sound', h₁⟩
    refine Yields.bind (h₁.yields_setField sound _ sound') ?_
    intro _ m₂ h₂
    refine Yields.bind h₂.yields_pop ?_
    rintro _ m₃ ⟨-, -, h₃⟩
    exact h₃.forget.pushes trivial sound'
  | _ => exact h.failsUnread _

lemma exec_getSuper
    (h : Active bare c T E f callers below ⟨⟨.cls, false⟩ :: ⟨k, false⟩ :: slots, g⟩ m)
    (named : T.IsName index x) :
    Yields bare (fun _ m' => GoesOn bare T E f callers below ⟨.plain :: slots, none⟩ m')
      (exec (.getSuper index) m) := by
  refine Yields.bind (h.yields_name named) ?_
  rintro _ _ ⟨rfl, rfl⟩
  refine Yields.bind h.yields_popClass ?_
  rintro r m' ⟨sound, h'⟩
  exact h'.yields_bindMethod sound _

lemma exec_makeClass (h : Active bare c T E f callers below ⟨slots, g⟩ m)
    (named : T.IsName index x) :
    Yields bare (fun _ m' => GoesOn bare T E f callers below ⟨⟨.cls, false⟩ :: slots, none⟩ m')
      (exec (.makeClass index) m) := by
  refine Yields.bind (h.yields_name named) ?_
  rintro _ _ ⟨rfl, rfl⟩
  obtain ⟨c', grows, memory, sound⟩ := h.memory.newClass x
  have h' : Active bare c' T E f callers below ⟨slots, none⟩ (m.newClass x).2 :=
    h.forget.change grows rfl rfl memory fun _ known => known
  exact h'.pushes ⟨_, rfl⟩ sound

/-- More is known of the topmost value when it has been looked at. -/
lemma sharpen (h : Active bare c T E f callers below ⟨⟨k, false⟩ :: slots, g⟩ m)
    (top : m.stack.back? = some v) (holds : k'.Holds v) :
    Active bare c T E f callers below ⟨⟨k', false⟩ :: slots, g⟩ m := by
  obtain ⟨w, top', -, sound⟩ := h.memory.stack.top
  obtain rfl := Option.some.inj (top.symm.trans top')
  have whole : m.stack.pop.push v = m.stack := by
    obtain ⟨init, split⟩ := Array.back?_eq_some_iff.1 top
    rw [split, Array.pop_push]
  have stack := h.memory.stack.pop.push (s := ⟨k', false⟩) holds sound
  rw [whole] at stack
  exact h.change (.refl c) rfl rfl
    ⟨h.memory.objects, (h.memory.cells.pop rfl).push _, stack⟩ fun _ known => known

lemma exec_inherit
    (h : Active bare c T E f callers below ⟨⟨.cls, false⟩ :: ⟨.any, false⟩ :: slots, g⟩ m) :
    Yields bare (fun _ m' => GoesOn bare T E f callers below ⟨⟨.cls, false⟩ :: slots, g⟩ m')
      (exec .inherit m) := by
  obtain ⟨bound, v, second, -, sound⟩ := h.memory.stack.at_distance (d := 1) rfl
  obtain ⟨_, first, ⟨r, rfl⟩, sound'⟩ := h.memory.stack.top
  have peeks : peek 1 m = .ok v m := by
    obtain ⟨_, rfl⟩ := Array.getElem?_eq_some_iff.1 second
    rw [peek, dif_pos bound]
  have pops : popClass m = .ok r { m with stack := m.stack.pop } := by
    rw [popClass, bind_apply, pop, first]
    rfl
  have h₁ := h.yields_pop
  rw [pop, first] at h₁
  obtain ⟨-, -, h₁⟩ := h₁
  rw [exec, inherit, bind_apply, peeks]
  cases v with
  | cls superclass =>
    have top : (m.stack.pop).back? = some (.cls superclass) := by
      rw [Array.back?_eq_getElem?, Array.size_pop, Array.getElem?_pop, if_pos (by omega), second]
    have h₂ := h₁.sharpen top (show Kind.cls.Holds _ from ⟨superclass, rfl⟩)
    show Yields bare _ ((popClass >>= _ : Action Unit) m)
    rw [bind_apply, pops]
    refine Yields.bind (h₂.yields_methodsOf sound) ?_
    rintro inherited _ ⟨rfl, methods⟩
    refine (h₂.yields_modifyMethods sound' fun t methods' x w found => ?_).mono
      fun _ _ there => there.goesOn
    rw [Table.find?_addAll] at found
    rcases Option.or_eq_some_iff.1 found with found | ⟨-, found⟩
    · exact methods x w found
    · exact methods' x w found
  | _ => exact h.fails _

lemma exec_method
    (h : Active bare c T E f callers below ⟨⟨.closure, false⟩ :: ⟨.cls, false⟩ :: slots, g⟩ m)
    (named : T.IsName index x) :
    Yields bare (fun _ m' => GoesOn bare T E f callers below ⟨⟨.cls, false⟩ :: slots, none⟩ m')
      (exec (.method index) m) := by
  refine Yields.bind (h.yields_name named) ?_
  rintro _ _ ⟨rfl, rfl⟩
  refine Yields.bind h.yields_pop ?_
  rintro _ m₁ ⟨⟨w, rfl⟩, sound, h₁⟩
  refine Yields.bind (h₁.yields_peek (d := 0) rfl) ?_
  rintro _ _ ⟨rfl, ⟨r, rfl⟩, sound'⟩
  refine (h₁.yields_modifyMethods sound' fun t methods y u found => ?_).mono
    fun _ _ there => there.forget.goesOn
  rw [Table.find?_insert] at found
  split at found
  · rw [← Option.some.inj found]
    exact sound
  · exact methods y u found

/-! ## Operators -/

lemma exec_unary (h : Active bare c T E f callers below ⟨⟨k, false⟩ :: slots, g⟩ m) {i : Instr}
    (unary : i.IsUnary) :
    Yields bare (fun _ m' => GoesOn bare T E f callers below ⟨.plain :: slots, none⟩ m')
      (exec i m) := by
  cases unary with
  | not =>
    refine Yields.bind h.yields_pop ?_
    rintro _ m' ⟨-, -, h'⟩
    exact h'.forget.pushes trivial trivial
  | negate =>
    refine Yields.bind (h.yields_peek (d := 0) rfl) ?_
    rintro v _ ⟨rfl, -, -⟩
    cases v with
    | number a =>
      refine Yields.bind h.yields_pop ?_
      rintro _ m' ⟨-, -, h'⟩
      exact h'.forget.pushes trivial trivial
    | _ => exact h.fails _

/-- Two values are replaced by one. -/
lemma replaces (h : Active bare c T E f callers below ⟨⟨k, false⟩ :: ⟨k', false⟩ :: slots, g⟩ m)
    (sound : v.Sound bare c) :
    Yields bare (fun _ m' => GoesOn bare T E f callers below ⟨.plain :: slots, none⟩ m')
      ((do let _ ← pop; let _ ← pop; push v : Action Unit) m) := by
  refine Yields.bind h.yields_pop ?_
  rintro _ m₁ ⟨-, -, h₁⟩
  refine Yields.bind h₁.yields_pop ?_
  rintro _ m₂ ⟨-, -, h₂⟩
  exact h₂.forget.pushes trivial sound

lemma yields_numeric
    (h : Active bare c T E f callers below ⟨⟨k, false⟩ :: ⟨k', false⟩ :: slots, g⟩ m)
    {op : Float → Float → Value} (sound : ∀ a b, (op a b).Sound bare c) :
    Yields bare (fun _ m' => GoesOn bare T E f callers below ⟨.plain :: slots, none⟩ m')
      (numeric op m) := by
  refine Yields.bind (h.yields_peek (d := 1) rfl) ?_
  rintro v _ ⟨rfl, -, -⟩
  refine Yields.bind (h.yields_peek (d := 0) rfl) ?_
  rintro w _ ⟨rfl, -, -⟩
  split
  · exact h.replaces (sound _ _)
  · exact h.fails _

lemma exec_binary
    (h : Active bare c T E f callers below ⟨⟨k, false⟩ :: ⟨k', false⟩ :: slots, g⟩ m) {i : Instr}
    (binary : i.IsBinary) :
    Yields bare (fun _ m' => GoesOn bare T E f callers below ⟨.plain :: slots, none⟩ m')
      (exec i m) := by
  cases binary with
  | equal =>
    refine Yields.bind h.yields_pop ?_
    rintro _ m₁ ⟨-, -, h₁⟩
    refine Yields.bind h₁.yields_pop ?_
    rintro _ m₂ ⟨-, -, h₂⟩
    exact h₂.forget.pushes trivial trivial
  | add =>
    refine Yields.bind (h.yields_peek (d := 1) rfl) ?_
    rintro v _ ⟨rfl, -, -⟩
    refine Yields.bind (h.yields_peek (d := 0) rfl) ?_
    rintro w _ ⟨rfl, -, -⟩
    split
    · exact h.replaces trivial
    · next s t =>
      have h' : Active bare c T E f callers below ⟨⟨k, false⟩ :: ⟨k', false⟩ :: slots, g⟩
          { m with strings := (m.strings.intern (s.content ++ t.content)).2 } :=
        h.change (.refl c) rfl rfl ⟨h.memory.objects, h.memory.cells, h.memory.stack⟩
          fun _ known => known
      exact h'.replaces trivial
    · exact h.fails _
  | greater | less | subtract | multiply | divide =>
    exact h.yields_numeric fun _ _ => trivial

lemma exec_print (h : Active bare c T E f callers below ⟨⟨k, false⟩ :: slots, g⟩ m) :
    Yields bare (fun _ m' => GoesOn bare T E f callers below ⟨slots, none⟩ m')
      (exec .print m) := by
  refine Yields.bind h.yields_pop ?_
  rintro v m' ⟨-, -, h'⟩
  have noted : Active bare c T E f callers below ⟨slots, none⟩ (m'.note (.printed v.display)) :=
    h'.forget.change (.refl c) rfl rfl ⟨h'.memory.objects, h'.memory.cells, h'.memory.stack⟩
      fun _ known => known
  exact noted.goesOn

end Active

end Lox.Machine
