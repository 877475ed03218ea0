import Lox.Proofs.Machine.Failures
import Lox.Proofs.Machine.Lockstep
import Lox.Proofs.Machine.Passages

/-!
# The bottom of the stack

The bottom of the stack is slot zero of the script, which holds the script itself.  An action that stays
above it does the same whatever is there: it makes the same of the machine where that place is vacant
(`Oblivious`).  Each instruction stays above as long as its call does not go to slot zero of the script
(`exec_unaware`).
-/

namespace Lox.Machine

variable {α β : Type} {m m' : Machine}

/-! ## Vacant bottoms -/

section Stacks

lemma vacant_push {stack : Array Value} (some : 1 ≤ stack.size) (v : Value) :
    (stack.push v).setIfInBounds 0 .nil = (stack.setIfInBounds 0 .nil).push v := by
  refine Array.ext_getElem? fun i => ?_
  simp only [Array.getElem?_setIfInBounds, Array.getElem?_push, Array.size_push, Array.size_setIfInBounds]
  grind

lemma vacant_pop (stack : Array Value) : stack.pop.setIfInBounds 0 .nil = (stack.setIfInBounds 0 .nil).pop := by
  refine Array.ext_getElem? fun i => ?_
  simp only [Array.getElem?_setIfInBounds, Array.getElem?_pop, Array.size_pop, Array.size_setIfInBounds]
  grind

lemma vacant_shrink (stack : Array Value) (size : Nat) :
    (stack.shrink size).setIfInBounds 0 .nil = (stack.setIfInBounds 0 .nil).shrink size := by
  refine Array.ext_getElem? fun i => ?_
  rw [Array.shrink_eq_take, Array.shrink_eq_take, Array.take_eq_extract, Array.take_eq_extract]
  simp only [Array.getElem?_setIfInBounds, Array.getElem?_extract, Array.size_extract, Array.size_setIfInBounds]
  grind

lemma vacant_extract (stack : Array Value) {start : Nat} (above : start ≠ 0) (stop : Nat) :
    (stack.setIfInBounds 0 .nil).extract start stop = stack.extract start stop := by
  refine Array.ext_getElem? fun i => ?_
  simp only [Array.getElem?_setIfInBounds, Array.getElem?_extract, Array.size_setIfInBounds]
  grind

end Stacks

/-- If the action goes on, the stack is lower by at most `l` values. -/
class Loses (act : Action α) (l : outParam Nat) : Prop where
  size : ∀ {m a m'}, act m = .ok a m' → m.stack.size ≤ m'.stack.size + l

instance (priority := low) {act : Action α} {l : Nat} [shallow : Shallow act l] : Loses act l :=
  ⟨fun result => (shallow.shallow result).2.1⟩

instance (distance : Nat) (v : Value) : Loses (replace distance v) 0 := by
  refine ⟨fun result => ?_⟩
  unfold replace at result
  split at result
  · obtain ⟨-, rfl⟩ := EStateM.Result.ok.inj result
    exact Nat.le_of_eq Array.size_setIfInBounds.symm
  · cases result

instance (b : Blueprint) : Loses (make b) 0 := ⟨fun result => by rw [(make_same result).2]; exact Nat.le_refl _⟩

/-- The machine without the value at the bottom of its stack. -/
def vacate (m : Machine) : Machine := { m with stack := m.stack.setIfInBounds 0 .nil }

/-- No cell is open for the bottom of the stack. -/
def Sealed (m : Machine) : Prop := Cell.opened 0 ∉ m.cells

/-- The action looks at the values above the bottom of the stack, where there are `need` values with it, and does
not share the bottom: it goes on, or stops the run other than by a defect, in the same way without the bottom. -/
class Oblivious (act : Action α) (need : outParam Nat) : Prop where
  goesOn : ∀ {m a m'}, need ≤ m.stack.size → m.Sealed → act m = .ok a m' →
    act m.vacate = .ok a m'.vacate ∧ m'.Sealed
  stops : ∀ {m stop m'}, need ≤ m.stack.size → m.Sealed → act m = .error stop m' →
    (∀ defect, stop ≠ .broken defect) → act m.vacate = .error stop m'.vacate ∧ m'.Sealed

section Oblivious

variable {d e l n : Nat} {act : Action α} {f : α → Action β}

lemma Oblivious.loosen (h : Oblivious act d) (more : d ≤ n) : Oblivious act n :=
  ⟨fun enough => h.goesOn (more.trans enough), fun enough => h.stops (more.trans enough)⟩

/-- An action that stops the run by a defect only. -/
lemma oblivious_of_goesOn (avoids : ∀ way, Avoids way act)
    (goesOn : ∀ {m a m'}, n ≤ m.stack.size → m.Sealed → act m = .ok a m' →
      act m.vacate = .ok a m'.vacate ∧ m'.Sealed) : Oblivious act n := by
  refine ⟨goesOn, fun {m stop m'} _ _ result sound => ?_⟩
  cases stop with
  | finished => exact absurd trivial ((avoids .success).avoids result)
  | failed error => exact absurd trivial ((avoids .failure).avoids result)
  | broken defect => exact absurd rfl (sound defect)

lemma oblivious_bind (first : Oblivious act d) (loses : Loses act l) (second : ∀ a, Oblivious (f a) e) :
    Oblivious (act >>= f) (max d (l + e)) := by
  refine ⟨fun {m b m''} enough sealed result => ?_, fun {m stop m''} enough sealed result sound => ?_⟩
  · obtain ⟨a, m', here, result⟩ := bind_ok result
    obtain ⟨same, sealed'⟩ := first.goesOn (by omega) sealed here
    have left := loses.size here
    rw [bind_apply, same]
    exact (second a).goesOn (by omega) sealed' result
  · rw [bind_apply]
    rcases bind_error result with here | ⟨a, m', here, result⟩
    · obtain ⟨same, sealed'⟩ := first.stops (by omega) sealed here sound
      rw [same]
      exact ⟨rfl, sealed'⟩
    · obtain ⟨same, sealed'⟩ := first.goesOn (by omega) sealed here
      have left := loses.size here
      rw [same]
      exact (second a).stops (by omega) sealed' result sound

instance [first : Oblivious act d] [loses : Loses act l] [second : ∀ a, Oblivious (f a) e] :
    Oblivious (act >>= f) (max d (l + e)) :=
  oblivious_bind first loses second

lemma oblivious_steps [first : Oblivious act d] [loses : Loses act l] (second : ∀ a, Oblivious (f a) e)
    (enough : d ≤ n) (rest : l + e ≤ n) : Oblivious (act >>= f) n :=
  (oblivious_bind first loses second).loosen (by omega)

/-- What is looked at is not the bottom of the stack. -/
lemma oblivious_get {f : Machine → Action β} (same : ∀ m : Machine, e ≤ m.stack.size → f m.vacate = f m)
    (each : ∀ m : Machine, e ≤ m.stack.size → Oblivious (f m) e) : Oblivious (get >>= f) e := by
  refine ⟨fun {m b m'} enough sealed result => ?_, fun {m stop m'} enough sealed result sound => ?_⟩
  · have same' := (each m enough).goesOn enough sealed result
    rwa [← same m enough] at same'
  · have same' := (each m enough).stops enough sealed result sound
    rwa [← same m enough] at same'

/-- The action only looks. -/
lemma oblivious_look (looks : Inspecting act) (avoids : ∀ way, Avoids way act)
    (same : ∀ {m a}, d ≤ m.stack.size → m.Sealed → act m = .ok a m → act m.vacate = .ok a m.vacate) :
    Oblivious act d := by
  refine oblivious_of_goesOn avoids fun {m a m'} enough sealed result => ?_
  have unchanged := looks.same result
  rw [unchanged] at result ⊢
  exact ⟨same enough sealed result, sealed⟩

instance (a : α) : Oblivious (pure a : Action α) 0 := by
  refine oblivious_look inferInstance (fun _ => inferInstance) fun _ _ result => ?_
  rw [← (EStateM.Result.ok.inj result).1]
  rfl

instance (error : RuntimeError) : Oblivious (fail error : Action α) 0 := by
  refine ⟨fun _ _ result => ?_, fun _ sealed result _ => ?_⟩
  · cases result
  · obtain ⟨rfl, rfl⟩ := EStateM.Result.error.inj result
    exact ⟨rfl, sealed⟩

instance (defect : Defect) : Oblivious (broken defect : Action α) 0 :=
  oblivious_of_goesOn (fun _ => inferInstance) fun _ _ result => by cases result

instance (defect : Defect) (a? : Option α) : Oblivious (orBroken defect a?) 0 := by
  cases a? <;> rw [orBroken] <;> infer_instance

instance (c : Prop) [Decidable c] (x y : Action α) [first : Oblivious x d] [second : Oblivious y e] :
    Oblivious (if c then x else y) (max d e) := by
  split
  · exact first.loosen (Nat.le_max_left d e)
  · exact second.loosen (Nat.le_max_right d e)

/-- The action changes nothing but what has nothing to do with the stack. -/
lemma oblivious_modifyGet {f : Machine → α × Machine} (cells : ∀ m, (f m).2.cells = m.cells)
    (same : ∀ m : Machine, f m.vacate = ((f m).1, (f m).2.vacate)) : Oblivious (modifyGet f : Action α) 0 := by
  refine oblivious_of_goesOn (fun _ => inferInstance) fun {m a m'} _ sealed result => ?_
  obtain ⟨rfl, rfl⟩ := EStateM.Result.ok.inj result
  refine ⟨?_, ?_⟩
  · show EStateM.Result.ok (f m.vacate).1 (f m.vacate).2 = _
    rw [same]
  · rw [Sealed, cells]
    exact sealed

lemma oblivious_modify {f : Machine → Machine} (cells : ∀ m, (f m).cells = m.cells)
    (same : ∀ m : Machine, f m.vacate = (f m).vacate) : Oblivious (modify f : Action Unit) 0 :=
  oblivious_modifyGet cells fun m => by rw [same]

end Oblivious

/-! ## Single actions -/

section Actions

lemma size_vacate (m : Machine) : m.vacate.stack.size = m.stack.size := Array.size_setIfInBounds

lemma get_vacate (m : Machine) {i : Nat} (above : i ≠ 0) : m.vacate.stack[i]? = m.stack[i]? :=
  Array.getElem?_setIfInBounds_ne (Ne.symm above)

instance (v : Value) : Oblivious (push v) 1 := by
  refine oblivious_of_goesOn (fun _ => inferInstance) fun {m a m'} enough sealed result => ?_
  obtain ⟨-, rfl⟩ := EStateM.Result.ok.inj result
  refine ⟨?_, sealed⟩
  unfold push vacate
  rw [vacant_push enough]

instance : Oblivious pop 2 := by
  refine oblivious_of_goesOn (fun _ => inferInstance) fun {m v m'} enough sealed result => ?_
  obtain ⟨top, rfl⟩ := pop_ok result
  have same : m.vacate.stack.back? = some v := by
    rw [Array.back?_eq_getElem?, size_vacate, get_vacate m (by omega), ← Array.back?_eq_getElem?, top]
  refine ⟨?_, sealed⟩
  unfold pop
  rw [same]
  unfold vacate
  rw [vacant_pop]

instance (distance : Nat) : Oblivious (peek distance) (distance + 2) := by
  refine oblivious_look inferInstance (fun _ => inferInstance) fun {m v} enough _ result => ?_
  unfold peek at result ⊢
  have within : distance < m.stack.size := by omega
  rw [dif_pos within] at result
  rw [dif_pos (by rwa [size_vacate]), ← (EStateM.Result.ok.inj result).1]
  have same := get_vacate m (i := m.stack.size - 1 - distance) (by omega)
  rw [Array.getElem?_eq_getElem (by rw [size_vacate]; omega), Array.getElem?_eq_getElem (by omega)] at same
  simp only [size_vacate, Option.some.inj same]

/-- A value above the bottom is replaced. -/
lemma vacate_write (m : Machine) {slot : Nat} (above : slot ≠ 0) (v : Value) :
    { m.vacate with stack := m.vacate.stack.setIfInBounds slot v } =
      { m with stack := m.stack.setIfInBounds slot v }.vacate := by
  unfold vacate
  rw [Array.setIfInBounds_comm _ _ above.symm]

instance (distance : Nat) (v : Value) : Oblivious (replace distance v) (distance + 2) := by
  refine oblivious_of_goesOn (fun _ => inferInstance) fun {m a m'} enough sealed result => ?_
  unfold replace at result ⊢
  rw [if_pos (by omega)] at result
  obtain ⟨-, rfl⟩ := EStateM.Result.ok.inj result
  refine ⟨?_, sealed⟩
  rw [size_vacate, if_pos (by omega), vacate_write m (by omega)]

lemma oblivious_readSlot {slot : Nat} (above : slot ≠ 0) : Oblivious (readSlot slot) 0 := by
  refine oblivious_look inferInstance (fun _ => inferInstance) fun {m v} _ _ result => ?_
  unfold readSlot at result ⊢
  rw [get_vacate m above]
  cases value : m.stack[slot]? with
  | none =>
    rw [value] at result
    cases result
  | some w =>
    rw [value] at result
    rw [(EStateM.Result.ok.inj result).1]

lemma oblivious_writeSlot {slot : Nat} (above : slot ≠ 0) (v : Value) : Oblivious (writeSlot slot v) 0 := by
  refine oblivious_of_goesOn (fun _ => inferInstance) fun {m a m'} _ sealed result => ?_
  unfold writeSlot at result ⊢
  split at result
  · next within =>
    obtain ⟨-, rfl⟩ := EStateM.Result.ok.inj result
    refine ⟨?_, sealed⟩
    rw [size_vacate, if_pos within, vacate_write m above]
  · cases result

instance (size : Nat) : Oblivious (cutStack size) 0 := by
  refine oblivious_of_goesOn (fun _ => inferInstance) fun {m a m'} _ sealed result => ?_
  obtain ⟨-, rfl⟩ := EStateM.Result.ok.inj result
  refine ⟨?_, sealed⟩
  unfold cutStack vacate
  rw [vacant_shrink]

instance (b : Blueprint) : Oblivious (make b) 0 := by
  refine oblivious_of_goesOn (fun _ => inferInstance) fun {m v m'} _ sealed result => ?_
  obtain ⟨rfl, rfl⟩ := EStateM.Result.ok.inj result
  cases b <;> exact ⟨rfl, sealed⟩

/-! ### The running call -/

instance : Oblivious frame 0 := by
  refine oblivious_look inferInstance (fun _ => inferInstance) fun {m f} _ _ result => ?_
  unfold frame at result ⊢
  have frames' : m.vacate.frames = m.frames := rfl
  rw [frames']
  cases frames : m.frames with
  | nil =>
    rw [frames] at result
    cases result
  | cons g callers =>
    rw [frames] at result
    rw [(EStateM.Result.ok.inj result).1]

instance (ip : Nat) : Oblivious (goto ip) 0 := by
  refine oblivious_of_goesOn (fun _ => inferInstance) fun {m a m'} _ sealed result => ?_
  unfold goto at result ⊢
  have frames' : m.vacate.frames = m.frames := rfl
  rw [frames']
  cases frames : m.frames with
  | nil =>
    rw [frames] at result
    cases result
  | cons g callers =>
    rw [frames] at result
    obtain ⟨-, rfl⟩ := EStateM.Result.ok.inj result
    exact ⟨rfl, sealed⟩

instance (index : UInt8) : Oblivious (constant index) 0 := by
  unfold constant
  infer_instance

instance (index : UInt8) : Oblivious (name index) 0 := by
  unfold name
  refine oblivious_steps (e := 0) (fun c => ?_) (by omega) (by omega)
  cases c <;> infer_instance

/-! ### Objects -/

instance : Oblivious popClass 2 := by
  unfold popClass
  refine oblivious_steps (e := 0) (fun v => ?_) (by omega) (by omega)
  cases v <;> infer_instance

instance (c : ClassRef) : Oblivious (methodsOf c) 0 := by
  unfold methodsOf
  exact oblivious_get (fun _ _ => rfl) fun m _ => inferInstance

instance (c : ClassRef) (change : Table Closure → Table Closure) : Oblivious (modifyMethods c change) 0 := by
  refine oblivious_of_goesOn (fun _ => inferInstance) fun {m a m'} _ sealed result => ?_
  unfold modifyMethods at result ⊢
  split at result
  · next within =>
    obtain ⟨-, rfl⟩ := EStateM.Result.ok.inj result
    exact ⟨if_pos within, sealed⟩
  · cases result

instance (c : ClassRef) (name : String) : Oblivious (method c name) 0 := by
  unfold method
  refine oblivious_steps (e := 0) (fun t => ?_) (by omega) (by omega)
  cases t.find? name <;> infer_instance

instance (serial : Nat) (name : String) : Oblivious (field? serial name) 0 := by
  unfold field?
  exact oblivious_get (fun _ _ => rfl) fun m _ => inferInstance

instance (serial : Nat) (name : String) (v : Value) : Oblivious (setField serial name v) 0 := by
  refine oblivious_of_goesOn (fun _ => inferInstance) fun {m a m'} _ sealed result => ?_
  unfold setField at result ⊢
  split at result
  · next within =>
    obtain ⟨-, rfl⟩ := EStateM.Result.ok.inj result
    exact ⟨if_pos within, sealed⟩
  · cases result

instance (c : ClassRef) (name : String) : Oblivious (bindMethod c name) 2 := by
  have bound : ∀ (receiver : Value) (closure : Closure),
      Oblivious (modifyGet fun m => m.newBound receiver closure : Action Value) 0 :=
    fun _ _ => oblivious_modifyGet (fun _ => rfl) fun _ => rfl
  have shallow : ∀ (receiver : Value) (closure : Closure),
      Shallow (modifyGet fun m => m.newBound receiver closure : Action Value) 0 :=
    fun _ _ => shallow_modifyGet fun _ => ⟨rfl, rfl⟩
  unfold bindMethod
  exact Oblivious.loosen inferInstance (by decide)

/-! ### Captured variables -/

lemma slotOf_vacate (m : Machine) : m.vacate.slotOf = m.slotOf := rfl

/-- The place of an open cell is above the bottom. -/
lemma Sealed.above {cell slot : Nat} (sealed : m.Sealed) (place : m.slotOf cell = some slot) : slot ≠ 0 := by
  rintro rfl
  obtain ⟨c, there, opened⟩ := Option.bind_eq_some_iff.1 place
  cases c with
  | opened slot =>
    obtain rfl := Option.some.inj opened
    exact sealed (Array.mem_of_getElem? there)
  | closed => cases opened

lemma oblivious_captureSlot {slot : Nat} (above : slot ≠ 0) : Oblivious (captureSlot slot) 0 := by
  have apply : ∀ m : Machine, captureSlot slot m =
      if (findOrInsert m.slotOf slot m.cells.size m.openCells).1 = m.cells.size then
        .ok m.cells.size { m with
          openCells := (findOrInsert m.slotOf slot m.cells.size m.openCells).2
          cells := m.cells.push (.opened slot) }
      else .ok (findOrInsert m.slotOf slot m.cells.size m.openCells).1 m := fun _ => rfl
  refine oblivious_of_goesOn (fun _ => inferInstance) fun {m cell m'} _ sealed result => ?_
  rw [apply] at result ⊢
  split at result
  · next new =>
    obtain ⟨rfl, rfl⟩ := EStateM.Result.ok.inj result
    refine ⟨if_pos new, fun there => ?_⟩
    rcases Array.mem_push.1 there with old | same
    · exact sealed old
    · exact above (Cell.opened.inj same).symm
  · next old =>
    obtain ⟨rfl, rfl⟩ := EStateM.Result.ok.inj result
    exact ⟨if_neg old, sealed⟩

lemma partCells_vacate (sealed : m.Sealed) (last : Nat) (cells : List Nat) :
    m.vacate.partCells last cells = m.partCells last cells := by
  induction cells with
  | nil => rfl
  | cons i lower ih =>
    unfold partCells
    rw [slotOf_vacate]
    cases place : m.slotOf i with
    | none => rfl
    | some slot =>
      dsimp only
      rw [ih, get_vacate m (sealed.above place)]

lemma sealed_closeAll (sealed : m.Sealed) (closing : List (Nat × Value)) :
    Cell.opened 0 ∉ closeAll closing m.cells := by
  intro there
  obtain ⟨i, place⟩ := Array.getElem?_of_mem there
  have bound := (Array.getElem?_eq_some_iff.1 place).1
  rw [size_closeAll] at bound
  by_cases closed : i ∈ closing.map Prod.fst
  · obtain ⟨v, -, place'⟩ := closeAll_closes closed bound
    cases place.symm.trans place'
  · rw [closeAll_other closed] at place
    exact sealed (Array.mem_of_getElem? place)

instance (last : Nat) : Oblivious (closeCells last) 0 := by
  refine oblivious_of_goesOn (fun _ => inferInstance) fun {m a m'} _ sealed result => ?_
  unfold closeCells at result ⊢
  have openCells : m.vacate.openCells = m.openCells := rfl
  rw [openCells, partCells_vacate sealed]
  cases parts : m.partCells last m.openCells with
  | none =>
    rw [parts] at result
    cases result
  | some parted =>
    obtain ⟨closing, staying⟩ := parted
    rw [parts] at result
    obtain ⟨-, rfl⟩ := EStateM.Result.ok.inj result
    exact ⟨rfl, sealed_closeAll sealed closing⟩

instance (index : UInt8) : Oblivious (capturedCell index) 0 := by
  unfold capturedCell
  infer_instance

instance (cell : Nat) : Oblivious (readCell cell) 0 := by
  refine oblivious_look inferInstance (fun _ => inferInstance) fun {m v} enough sealed result => ?_
  have cells : m.vacate.cells = m.cells := rfl
  rw [readCell_apply] at result ⊢
  rw [cells]
  cases there : m.cells[cell]? with
  | none =>
    rw [there] at result
    cases result
  | some c =>
    rw [there] at result
    cases c with
    | opened slot =>
      have above : slot ≠ 0 := fun zero => sealed (Array.mem_of_getElem? (zero ▸ there))
      exact ((oblivious_readSlot above).goesOn enough sealed result).1
    | closed w =>
      rw [← (EStateM.Result.ok.inj result).1]

instance (cell : Nat) (v : Value) : Oblivious (writeCell cell v) 0 := by
  refine oblivious_of_goesOn (fun _ => inferInstance) fun {m a m'} enough sealed result => ?_
  have cells : m.vacate.cells = m.cells := rfl
  rw [writeCell_apply] at result ⊢
  rw [cells]
  cases there : m.cells[cell]? with
  | none =>
    rw [there] at result
    cases result
  | some c =>
    rw [there] at result
    cases c with
    | opened slot =>
      have above : slot ≠ 0 := fun zero => sealed (Array.mem_of_getElem? (zero ▸ there))
      exact (oblivious_writeSlot above v).goesOn enough sealed result
    | closed w =>
      obtain ⟨-, rfl⟩ := EStateM.Result.ok.inj result
      refine ⟨rfl, fun among => ?_⟩
      rcases Array.mem_or_eq_of_mem_setIfInBounds among with old | same
      · exact sealed old
      · cases same

end Actions

/-! ## Instructions -/

section Instructions

instance (f : Float → Float → Value) : Oblivious (numeric f) 3 := by
  unfold numeric
  refine oblivious_steps (e := 3) (fun a => oblivious_steps (e := 3) (fun b => ?_) (by omega) (by omega))
    (by omega) (by omega)
  split
  · exact Oblivious.loosen inferInstance (by decide)
  · exact Oblivious.loosen inferInstance (Nat.zero_le _)

instance : Oblivious add 3 := by
  have interns : ∀ content : String, Oblivious (modifyGet fun m =>
      let (object, strings) := m.strings.intern content
      (object, { m with strings }) : Action StringObject) 0 :=
    fun _ => oblivious_modifyGet (fun _ => rfl) fun _ => rfl
  have shallow : ∀ content : String, Shallow (modifyGet fun m =>
      let (object, strings) := m.strings.intern content
      (object, { m with strings }) : Action StringObject) 0 :=
    fun _ => shallow_modifyGet fun _ => ⟨rfl, rfl⟩
  unfold add
  refine oblivious_steps (e := 3) (fun a => oblivious_steps (e := 3) (fun b => ?_) (by omega) (by omega))
    (by omega) (by omega)
  split
  · exact Oblivious.loosen inferInstance (by decide)
  · exact Oblivious.loosen inferInstance (by decide)
  · exact Oblivious.loosen inferInstance (Nat.zero_le _)

instance : Oblivious negate 2 := by
  unfold negate
  refine oblivious_steps (e := 2) (fun a => ?_) (by omega) (by omega)
  split
  · exact Oblivious.loosen inferInstance (by decide)
  · exact Oblivious.loosen inferInstance (Nat.zero_le _)

instance (name : String) : Oblivious (readGlobal name) 1 := by
  unfold readGlobal
  refine oblivious_get (fun _ _ => rfl) fun m _ => ?_
  split
  · infer_instance
  · exact Oblivious.loosen inferInstance (Nat.zero_le _)

instance (name : String) : Oblivious (defineGlobal name) 2 := by
  have sets : ∀ v : Value, Oblivious (modify fun m => { m with globals := m.globals.insert name v } : Action Unit) 0 :=
    fun v => oblivious_modify (fun _ => rfl) fun _ => rfl
  unfold defineGlobal
  exact oblivious_steps (e := 0) sets (by omega) (by omega)

instance (name : String) : Oblivious (writeGlobal name) 2 := by
  have sets : ∀ v : Value, Oblivious (modify fun m => { m with globals := m.globals.insert name v } : Action Unit) 0 :=
    fun v => oblivious_modify (fun _ => rfl) fun _ => rfl
  unfold writeGlobal
  refine oblivious_get (fun _ _ => rfl) fun m _ => ?_
  split
  · exact oblivious_steps (e := 0) sets (by omega) (by omega)
  · exact Oblivious.loosen inferInstance (Nat.zero_le _)

instance (error : RuntimeError) : Oblivious (failUnread error : Action α) 0 := by
  unfold failUnread
  exact Oblivious.loosen inferInstance (Nat.zero_le _)

instance (index : UInt8) : Oblivious (readProperty index) 2 := by
  unfold readProperty
  refine oblivious_steps (e := 2) (fun a => ?_) (by omega) (by omega)
  split
  · refine oblivious_steps (e := 2) (fun x => oblivious_steps (e := 2) (fun v? => ?_) (by omega) (by omega))
      (by omega) (by omega)
    split
    · exact Oblivious.loosen inferInstance (by decide)
    · infer_instance
  · exact Oblivious.loosen inferInstance (Nat.zero_le _)

instance (index : UInt8) : Oblivious (writeProperty index) 3 := by
  unfold writeProperty
  refine oblivious_steps (e := 3) (fun a => ?_) (by omega) (by omega)
  split
  · exact Oblivious.loosen inferInstance (by decide)
  · exact Oblivious.loosen inferInstance (Nat.zero_le _)

instance (index : UInt8) : Oblivious (pushClass index) 1 := by
  have makes : ∀ x : String, Oblivious (modifyGet (·.newClass x) : Action ClassRef) 0 :=
    fun _ => oblivious_modifyGet (fun _ => rfl) fun _ => rfl
  have shallow : ∀ x : String, Shallow (modifyGet (·.newClass x) : Action ClassRef) 0 :=
    fun _ => shallow_modifyGet fun _ => ⟨rfl, rfl⟩
  unfold pushClass
  exact Oblivious.loosen inferInstance (by decide)

instance : Oblivious inherit 3 := by
  unfold inherit
  refine oblivious_steps (e := 2) (fun a => ?_) (by omega) (by omega)
  split
  · exact Oblivious.loosen inferInstance (by decide)
  · exact Oblivious.loosen inferInstance (Nat.zero_le _)

instance (index : UInt8) : Oblivious (addMethod index) 3 := by
  unfold addMethod
  refine oblivious_steps (e := 3) (fun x => oblivious_steps (e := 2) (fun v => ?_) (by omega) (by omega))
    (by omega) (by omega)
  split
  · refine oblivious_steps (e := 0) (fun c => ?_) (by omega) (by omega)
    split <;> infer_instance
  · exact Oblivious.loosen inferInstance (Nat.zero_le _)

/-! ### Calls -/

instance (closure : Closure) (count : UInt8) : Oblivious (call closure count) 0 := by
  have apply : ∀ m : Machine, call closure count m =
      if closure.prototype.arity ≠ count then
        .error (.failed (.arityMismatch closure.prototype.arity count)) m
      else if maxFrames ≤ m.frames.length then .error (.failed .stackOverflow) m
      else if count.toNat < m.stack.size then
        .ok () { m with frames := ⟨closure, 0, m.stack.size - 1 - count.toNat⟩ :: m.frames }
      else .error (.broken .emptyStack) m := fun _ => rfl
  have frames : ∀ m : Machine, m.vacate.frames = m.frames := fun _ => rfl
  refine ⟨fun {m a m'} _ sealed result => ?_, fun {m stop m'} _ sealed result sound => ?_⟩
  · rw [apply] at result ⊢
    rw [size_vacate, frames]
    split at result
    · cases result
    · next arity =>
      split at result
      · cases result
      · next few =>
        split at result
        · next enough =>
          obtain ⟨-, rfl⟩ := EStateM.Result.ok.inj result
          rw [if_neg arity, if_neg few, if_pos enough]
          exact ⟨rfl, sealed⟩
        · cases result
  · rw [apply] at result ⊢
    rw [size_vacate, frames]
    split at result
    · next arity =>
      obtain ⟨rfl, rfl⟩ := EStateM.Result.error.inj result
      exact ⟨if_pos arity, sealed⟩
    · next arity =>
      rw [if_neg arity]
      split at result
      · next many =>
        obtain ⟨rfl, rfl⟩ := EStateM.Result.error.inj result
        exact ⟨if_pos many, sealed⟩
      · split at result
        · cases result
        · exact absurd (EStateM.Result.error.inj result).1.symm (sound _)

/-- Values from a place above the bottom on are dropped, and then there still is the bottom. -/
lemma oblivious_cut {base : Nat} (above : base ≠ 0) {act : Action α} (after : Oblivious act 1) :
    Oblivious (cutStack base >>= fun _ => act) 1 := by
  have cutting : Oblivious (cutStack base) 0 := inferInstance
  have left : ∀ {m : Machine}, 1 ≤ m.stack.size → 1 ≤ (m.stack.shrink base).size := fun enough => by
    rw [Array.size_shrink]
    omega
  refine ⟨fun {m a m'} enough sealed result => ?_, fun {m stop m'} enough sealed result sound => ?_⟩
  · obtain ⟨same, sealed₁⟩ := cutting.goesOn (Nat.zero_le _) sealed rfl
    rw [bind_apply, same]
    exact after.goesOn (left enough) sealed₁ result
  · obtain ⟨same, sealed₁⟩ := cutting.goesOn (Nat.zero_le _) sealed rfl
    rw [bind_apply, same]
    exact after.stops (left enough) sealed₁ result sound

instance (function : Nat) (arguments : Array Value) (answer? : Option Value) :
    Oblivious (modify (·.remember function arguments answer?) : Action Unit) 0 :=
  oblivious_modify (fun _ => rfl) fun _ => rfl

instance (function : Nat) (arguments : Array Value) (answer? : Option Value) :
    Shallow (modify (·.remember function arguments answer?) : Action Unit) 0 :=
  shallow_modifyGet fun _ => ⟨rfl, rfl⟩

instance (f : NativeRef) (count : UInt8) : Oblivious (callNative f count) (count.toNat + 2) := by
  unfold callNative
  split
  · exact Oblivious.loosen inferInstance (Nat.zero_le _)
  · refine oblivious_get (fun m enough => ?_) fun m enough => ?_
    · have args : m.vacate.stack.extract (m.stack.size - count.toNat) m.stack.size =
          m.stack.extract (m.stack.size - count.toNat) m.stack.size :=
        vacant_extract m.stack (by omega) _
      dsimp only
      rw [size_vacate, args]
      rfl
    · refine oblivious_steps (e := 1) (fun body => ?_) (by omega) (by omega)
      dsimp only
      split
      · exact Oblivious.loosen inferInstance (Nat.zero_le _)
      · exact oblivious_steps (e := 1) (fun v => oblivious_steps (e := 1) (fun _ =>
          oblivious_cut (by omega) inferInstance) (by omega) (by omega)) (by omega) (by omega)

instance (c : ClassRef) (count : UInt8) : Oblivious (construct c count) (count.toNat + 2) := by
  have makes : Oblivious (modifyGet (·.newInstance c) : Action Value) 0 :=
    oblivious_modifyGet (fun _ => rfl) fun _ => rfl
  have shallow : Shallow (modifyGet (·.newInstance c) : Action Value) 0 := shallow_modifyGet fun _ => ⟨rfl, rfl⟩
  have checks : Oblivious (unless count = 0 do fail (.arityMismatch 0 count) : Action Unit) 0 := by
    by_cases zero : count = 0
    · rw [show (unless count = 0 do fail (.arityMismatch 0 count) : Action Unit) = pure () from if_pos zero]
      infer_instance
    · rw [show (unless count = 0 do fail (.arityMismatch 0 count) : Action Unit) =
        fail (.arityMismatch 0 count) from if_neg zero]
      infer_instance
  unfold construct
  refine oblivious_steps (e := count.toNat + 2) (fun v => oblivious_steps (e := 0) (fun _ =>
    oblivious_steps (e := 0) (fun t => ?_) (by omega) (by omega)) (by omega) (by omega)) (by omega) (by omega)
  split
  · infer_instance
  · exact checks

instance (callee : Value) (count : UInt8) : Oblivious (callValue callee count) (count.toNat + 2) := by
  cases callee with
  | closure w => exact Oblivious.loosen (inferInstanceAs (Oblivious (call w count) 0)) (Nat.zero_le _)
  | bound serial receiver w =>
    exact oblivious_steps (f := fun _ => call w count) (e := 0) (fun _ => inferInstance) (Nat.le_refl _)
      (Nat.zero_le _)
  | cls c => exact inferInstanceAs (Oblivious (construct c count) _)
  | native f => exact inferInstanceAs (Oblivious (callNative f count) _)
  | _ => exact Oblivious.loosen (inferInstanceAs (Oblivious (fail .notCallable : Action Unit) 0)) (Nat.zero_le _)

instance (c : ClassRef) (name : String) (count : UInt8) : Oblivious (invokeFromClass c name count) 0 := by
  unfold invokeFromClass
  infer_instance

instance (name : String) (count : UInt8) : Oblivious (invoke name count) (count.toNat + 2) := by
  unfold invoke
  refine oblivious_steps (e := count.toNat + 2) (fun receiver => ?_) (by omega) (by omega)
  split
  · refine oblivious_steps (e := count.toNat + 2) (fun v? => ?_) (by omega) (by omega)
    split
    · exact oblivious_steps (e := count.toNat + 2) (fun _ => inferInstance) (by omega) (by omega)
    · exact Oblivious.loosen inferInstance (Nat.zero_le _)
  · exact Oblivious.loosen inferInstance (Nat.zero_le _)

end Instructions

/-! ### Places of the running call -/

/-- The instruction goes to no place of the running call that is the bottom of the stack. -/
structure Apart (f : Frame) (i : Instr) : Prop where
  fetched : ∀ slot, i = .getLocal slot → f.base + slot.toNat ≠ 0
  assigned : ∀ slot, i = .setLocal slot → f.base + slot.toNat ≠ 0
  captured : ∀ index captures, i = .closure index captures → ∀ capture ∈ captures, capture.isLocal = true →
    f.base + capture.index.toNat ≠ 0

/-- In a call above the script, all places are above the bottom of the stack. -/
lemma apart_of_above {f : Frame} (above : f.base ≠ 0) (i : Instr) : Apart f i := by
  refine ⟨fun _ _ => ?_, fun _ _ => ?_, fun _ _ _ _ _ _ => ?_⟩ <;> omega

variable {f : Frame} {callers : List Frame} {i : Instr} {a : Unit}

lemma frame_then (frames : m.frames = f :: callers) (act : Frame → Action α) : (frame >>= act) m = act f m := by
  rw [bind_apply]
  unfold frame
  rw [frames]

/-- In this machine, the action does the same without the bottom of the stack, and does not share it. -/
structure Unaware (act : Action α) (m : Machine) : Prop where
  goesOn : ∀ {a m'}, act m = .ok a m' → act m.vacate = .ok a m'.vacate ∧ m'.Sealed
  stops : ∀ {stop m'}, act m = .error stop m' → (∀ defect, stop ≠ .broken defect) →
    act m.vacate = .error stop m'.vacate ∧ m'.Sealed

lemma Oblivious.unaware {n : Nat} {act : Action α} (h : Oblivious act n) (enough : n ≤ m.stack.size)
    (sealed : m.Sealed) : Unaware act m :=
  ⟨h.goesOn enough sealed, h.stops enough sealed⟩

lemma unaware_of_goesOn {act : Action α} (avoids : ∀ way, Avoids way act)
    (goesOn : ∀ {a m'}, act m = .ok a m' → act m.vacate = .ok a m'.vacate ∧ m'.Sealed) : Unaware act m := by
  refine ⟨goesOn, fun {stop m'} result sound => ?_⟩
  cases stop with
  | finished => exact absurd trivial ((avoids .success).avoids result)
  | failed error => exact absurd trivial ((avoids .failure).avoids result)
  | broken defect => exact absurd rfl (sound defect)

/-- An action that looks at the running call. -/
lemma unaware_frame {act : Frame → Action α} (frames : m.frames = f :: callers) (unaware : Unaware (act f) m) :
    Unaware (frame >>= act) m := by
  have frames' : m.vacate.frames = f :: callers := frames
  refine ⟨fun {a m'} result => ?_, fun {stop m'} result => ?_⟩
  · rw [frame_then frames] at result
    rw [frame_then frames']
    exact unaware.goesOn result
  · rw [frame_then frames] at result
    rw [frame_then frames']
    exact unaware.stops result

lemma captureAll_vacate {captures : List Capture} {found found' : Array Nat} (frames : m.frames = f :: callers)
    (apart : ∀ capture ∈ captures, capture.isLocal = true → f.base + capture.index.toNat ≠ 0) (sealed : m.Sealed)
    (result : captureAll captures found m = .ok found' m') :
    captureAll captures found m.vacate = .ok found' m'.vacate ∧ m'.Sealed := by
  induction captures generalizing found m with
  | nil =>
    obtain ⟨rfl, rfl⟩ := EStateM.Result.ok.inj result
    exact ⟨rfl, sealed⟩
  | cons capture captures ih =>
    obtain ⟨first, others⟩ := List.forall_mem_cons.1 apart
    rw [captureAll_cons] at result ⊢
    obtain ⟨cell, m₁, here, result⟩ := bind_ok result
    have once : (if capture.isLocal then do captureSlot ((← frame).base + capture.index.toNat)
        else capturedCell capture.index : Action Nat) m.vacate = .ok cell m₁.vacate ∧ m₁.Sealed ∧
        m₁.frames = f :: callers := by
      split at here
      · next inner =>
        rw [if_pos inner]
        have captures := (oblivious_captureSlot (first inner)).unaware (m := m) (Nat.zero_le _) sealed
        obtain ⟨same, sealed₁⟩ := (unaware_frame frames captures).goesOn here
        rw [frame_then frames] at here
        exact ⟨same, sealed₁, (captureSlot_frames here).trans frames⟩
      · next outer =>
        rw [if_neg outer]
        have looks : Inspecting (capturedCell capture.index) := inferInstance
        obtain ⟨same, sealed₁⟩ :=
          (inferInstance : Oblivious (capturedCell capture.index) 0).goesOn (Nat.zero_le _) sealed here
        exact ⟨same, sealed₁, by rw [looks.same here, frames]⟩
    obtain ⟨same, sealed₁, frames₁⟩ := once
    rw [bind_apply, same]
    exact ih frames₁ others sealed₁ result

lemma pushClosure_unaware {index : UInt8} {captures : List Capture} (frames : m.frames = f :: callers)
    (apart : ∀ capture ∈ captures, capture.isLocal = true → f.base + capture.index.toNat ≠ 0)
    (enough : 0 < m.stack.size) (sealed : m.Sealed) : Unaware (pushClosure index captures) m := by
  have reads : Oblivious (constant index) 0 := inferInstance
  have makes : ∀ p captured, Oblivious (modifyGet (·.newClosure p captured) : Action Closure) 0 :=
    fun _ _ => oblivious_modifyGet (fun _ => rfl) fun _ => rfl
  have shallow : ∀ p captured, Shallow (modifyGet (·.newClosure p captured) : Action Closure) 0 :=
    fun _ _ => shallow_modifyGet fun _ => ⟨rfl, rfl⟩
  refine unaware_of_goesOn (fun _ => inferInstance) fun {a m'} result => ?_
  obtain ⟨c, known, result⟩ := inspect_ok inferInstance result
  have same := (reads.goesOn (Nat.zero_le _) sealed known).1
  unfold pushClosure
  rw [bind_apply, same]
  cases c with
  | prototype p =>
    obtain ⟨captured, m₁, all, result⟩ := bind_ok result
    obtain ⟨same, sealed₁⟩ := captureAll_vacate frames apart sealed all
    have capturing : Shallow (captureAll captures #[]) 0 := inferInstance
    have left := (capturing.shallow all).2.1
    dsimp only
    rw [bind_apply, same]
    exact (oblivious_steps (n := 1) (e := 1) (fun _ => inferInstance) (Nat.zero_le _) (Nat.le_refl _)).goesOn
      (by omega) sealed₁ result
  | _ => cases result

lemma leaving_vacate (m : Machine) : m.vacate.leaving = m.leaving.vacate := by
  unfold leaving vacate
  rw [vacant_pop]

lemma ret_unaware (frames : m.frames = f :: callers) (above : callers ≠ [] → f.base ≠ 0)
    (enough : 1 < m.stack.size) (sealed : m.Sealed) : Unaware ret m := by
  have pops : Oblivious pop 2 := inferInstance
  obtain ⟨v, top⟩ : ∃ v, m.stack.back? = some v := 
    ⟨_, Array.back?_eq_getElem?.trans (Array.getElem?_eq_getElem (by omega))⟩
  have popped : pop m = .ok v { m with stack := m.stack.pop } := by
    unfold pop
    rw [top]
  have top' := (pop_ok (pops.goesOn enough sealed popped).1).1
  have parted : m.leaving.vacate.partCells f.base m.vacate.openCells = m.leaving.partCells f.base m.openCells :=
    partCells_vacate (m := m.leaving) sealed f.base m.openCells
  have left : callers ≠ [] → 1 ≤ (m.leaving.stack.shrink f.base).size := fun some => by
    have base := above some
    rw [Array.size_shrink, leaving, Array.size_pop]
    omega
  have apply := ret_apply frames top
  have apply' := ret_apply (m := m.vacate) frames top'
  rw [leaving_vacate, parted] at apply'
  cases parts : m.leaving.partCells f.base m.openCells with
  | none =>
    rw [parts] at apply
    refine ⟨fun {a m'} result => ?_, fun {stop m'} result sound => ?_⟩
    · cases apply.symm.trans result
    · exact absurd (EStateM.Result.error.inj (apply.symm.trans result)).1.symm (sound _)
  | some pair =>
    obtain ⟨closing, staying⟩ := pair
    rw [parts] at apply apply'
    cases callers with
    | nil =>
      refine ⟨fun {a m'} result => ?_, fun {stop m'} result sound => ?_⟩
      · cases apply.symm.trans result
      · obtain ⟨rfl, rfl⟩ := EStateM.Result.error.inj (apply.symm.trans result)
        rw [apply']
        refine ⟨?_, sealed_closeAll sealed closing⟩
        simp only [List.isEmpty_nil, if_true, vacate, ← vacant_shrink]
    | cons g callers =>
      refine ⟨fun {a m'} result => ?_, fun {stop m'} result sound => ?_⟩
      · obtain ⟨-, rfl⟩ := EStateM.Result.ok.inj (apply.symm.trans result)
        rw [apply']
        refine ⟨?_, sealed_closeAll sealed closing⟩
        simp only [List.isEmpty_cons, Bool.false_eq_true, if_false, vacate, ← vacant_shrink,
          vacant_push (left (List.cons_ne_nil g callers))]
      · cases apply.symm.trans result

/-- An instruction that stays above the bottom of the stack does the same whatever is there. -/
theorem exec_unaware (frames : m.frames = f :: callers) (apart : Apart f i) (enough : i.reach < m.stack.size)
    (above : callers ≠ [] → f.base ≠ 0) (sealed : m.Sealed) : Unaware (exec i) m := by
  have whole : ∀ {n}, Oblivious (exec i) n → n ≤ i.reach + 1 → Unaware (exec i) m :=
    fun oblivious within => oblivious.unaware (within.trans enough) sealed
  cases i with
  | getLocal slot =>
    have reads := oblivious_readSlot (apart.fetched slot rfl)
    have pushes : Oblivious (readSlot (f.base + slot.toNat) >>= push) 1 :=
      oblivious_steps (e := 1) (fun _ => inferInstance) (by omega) (by omega)
    exact unaware_frame frames (pushes.unaware enough sealed)
  | setLocal slot =>
    have writes := oblivious_writeSlot (apart.assigned slot rfl)
    have replaces : Oblivious (peek 0 >>= writeSlot (f.base + slot.toNat)) 2 :=
      oblivious_steps (e := 0) writes (by omega) (by omega)
    exact unaware_frame frames (replaces.unaware enough sealed)
  | closure index captures => exact pushClosure_unaware frames (apart.captured index captures rfl) enough sealed
  | ret => exact ret_unaware frames above enough sealed
  | call count =>
    exact whole (n := count.toNat + 2) (oblivious_steps (e := count.toNat + 2)
      (fun callee => inferInstanceAs (Oblivious (callValue callee count) _)) (by omega) (by omega)) (Nat.le_refl _)
  | invoke index count =>
    exact whole (n := count.toNat + 2) (oblivious_steps (e := count.toNat + 2)
      (fun x => inferInstanceAs (Oblivious (invoke x count) _)) (by omega) (by omega)) (Nat.le_refl _)
  | superInvoke index count =>
    exact whole (n := count.toNat + 3) (Oblivious.loosen (by rw [exec]; infer_instance) (by omega)) (Nat.le_refl _)
  | print =>
    have notes : ∀ v : Value, Oblivious (modify (·.note (.printed v.display)) : Action Unit) 0 :=
      fun v => oblivious_modify (fun _ => rfl) fun _ => rfl
    exact whole (n := 2) (oblivious_steps (e := 0) notes (by omega) (by omega)) (Nat.le_refl _)
  | closeUpvalue =>
    refine whole (n := 2) (oblivious_get (fun m _ => ?_) fun m _ => ?_) (Nat.le_refl _)
    · rw [size_vacate]
    · exact oblivious_steps (e := 2) (fun _ => Oblivious.loosen inferInstance (by decide)) (by omega) (by omega)
  | jump distance => exact whole (n := 0) (by rw [exec]; infer_instance) (Nat.zero_le _)
  | jumpIfFalse distance => exact whole (n := 2) (by rw [exec]; infer_instance) (Nat.le_refl _)
  | loop distance => exact whole (n := 0) (by rw [exec]; infer_instance) (Nat.zero_le _)
  | _ => exact whole (by rw [exec]; infer_instance) (by simp only [Instr.reach]; omega)

end Lox.Machine
