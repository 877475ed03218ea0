import Lox.Proofs.Machine.Frames

/-!
# Closures that are passed around

Values go from the stack to globals, fields, methods and cells and back, and so do the closures in them.
There is only one instruction that makes closures with code.  So what is known of every closure in a
machine is known after an instruction that only passes values around, and of the closure that an instruction
calls (`Keeper.carries_exec`, `Keeper.callValue`, `Keeper.invoke`).

An invariant may say more than that: `Keeper` tells what it has to withstand, which is one change of the
memory a line.  That holds no matter whether the instruction gives a value or fails.
-/

namespace Lox

/-! ## Closures in values and machines -/

/-- The closures that a value consists of are of a sort. -/
def Value.All (G : Closure → Prop) : Value → Prop
  | .closure w => G w
  | .bound _ receiver w => receiver.All G ∧ G w
  | _ => True

lemma Value.All.mono {G G' : Closure → Prop} {v : Value} (h : v.All G) (weaker : ∀ w, G w → G' w) :
    v.All G' := by
  induction v with
  | closure w => exact weaker w h
  | bound serial receiver w ih => exact ⟨ih h.1, weaker w h.2⟩
  | _ => trivial

lemma Value.From.all {G : Closure → Prop} {host : Host} {given : Array Value} {new : NewObjects} {v : Value}
    (h : v.From host given new) (sees : ∀ v, host.Sees given v → v.All G)
    (closures : ∀ {i : Nat} {p captured}, new.closures[i]? = some (p, captured) → ∀ serial,
      G ⟨serial, p, captured⟩) : v.All G := by
  induction h with
  | nil | bool | number | string | prototype | cls | newClass | newInstance | newNative => trivial
  | seen there => exact sees _ there
  | receiver _ ih => exact ih.1
  | method _ ih => exact ih.2
  | bound _ _ _ ih ih' => exact ⟨ih, ih'⟩
  | newClosure made => exact closures made _

/-- What is sound is of a sort if every closure that is sound is. -/
lemma Value.Sound.all {G : Closure → Prop} {bare : Prop} {c : Census} {v : Value} (h : v.Sound bare c)
    (sound : ∀ w : Closure, w.Sound bare c → G w) : v.All G := by
  induction v with
  | closure w => exact sound w h
  | bound serial receiver w ih => exact ⟨ih h.1, sound w h.2⟩
  | _ => trivial

/-- The instruction only passes values around, and the next one follows. -/
def Instr.Passes : Instr → Prop
  | .closure _ _ | .inherit | .method _ | .jump _ | .jumpIfFalse _ | .loop _ | .call _ | .invoke _ _
  | .superInvoke _ _ | .ret => False
  | _ => True

namespace Machine

/-- The closures in a machine are of a sort, but for those of its calls. -/
structure Holds (G : Closure → Prop) (m : Machine) : Prop where
  stack : ∀ v ∈ m.stack, v.All G
  globals : ∀ x v, m.globals.find? x = some v → v.All G
  fields : ∀ t ∈ m.fields, ∀ x v, t.find? x = some v → v.All G
  methods : ∀ t ∈ m.methods, ∀ x w, t.find? x = some w → G w
  cells : ∀ v, .closed v ∈ m.cells → v.All G
  past : ∀ call ∈ m.hostCalls, ∀ v, call.Shows v → v.All G
  natives : ∀ body ∈ m.natives, body.Makes fun p => ∀ serial, G ⟨serial, p, #[]⟩

/-- The methods of each class are of a sort, and so are those of classes that functions of the host make. -/
structure Classes (N : Table Closure → Prop) (m : Machine) : Prop where
  tables : ∀ t ∈ m.methods, N t
  natives : ∀ body ∈ m.natives, body.Classes N

/-- The sort of a closure depends on its function and what it has captured. -/
def Copied (G : Closure → Prop) : Prop :=
  ∀ {serial serial' p captured}, G ⟨serial, p, captured⟩ → G ⟨serial', p, captured⟩

/-- The invariant `I` of machines tells that their closures are of the sort `G`, and withstands changes that
put such closures elsewhere, where an assignment is to a cell of `Free`. -/
structure Keeper (G : Closure → Prop) (Free : Nat → Prop) (I : Machine → Prop) : Prop where
  holds : ∀ {m}, I m → Holds G m
  same : ∀ {m m' : Machine}, I m → m'.stack = m.stack → m'.globals = m.globals → m'.fields = m.fields →
    m'.methods = m.methods → m'.cells = m.cells → m'.natives = m.natives → m'.hostCalls = m.hostCalls → I m'
  stack : ∀ {m stack}, I m → (∀ v ∈ stack, v.All G) → I { m with stack }
  globals : ∀ {m x v}, I m → v.All G → I { m with globals := m.globals.insert x v }
  fields : ∀ {m serial x v}, I m → v.All G →
    I { m with fields := m.fields.modify serial (·.insert x v) }
  cell : ∀ {m i w v}, I m → m.cells[i]? = some (.closed w) → Free i → v.All G →
    I { m with cells := m.cells.setIfInBounds i (.closed v) }
  close : ∀ {m last openCells closing}, I m → m.partCells last m.openCells = some (closing, openCells) →
    I { m with openCells, cells := closeAll closing m.cells }
  newClass : ∀ {m}, I m → I { m with methods := m.methods.push .empty }
  newInstance : ∀ {m}, I m → I { m with fields := m.fields.push .empty }
  builds : ∀ {m : Machine} {self : Nat} {given body blueprint}, I m → m.natives[self]? = some body →
    (∀ v ∈ given, v.All G) → body (m.host self) given = .ok blueprint →
      (m.build blueprint).1.All G ∧ I (m.build blueprint).2
  remembers : ∀ {m call}, I m → (∀ v, call.Shows v → v.All G) → I { m with hostCalls := m.hostCalls.push call }

/-! ## Results -/

variable {α β : Type}

/-- What holds of a value and of the machine with it, or else of the machine where the action failed. -/
def Comes (Q : α → Machine → Prop) (E : Machine → Prop) : EStateM.Result Stop Machine α → Prop
  | .ok a m => Q a m
  | .error _ m => E m

section Results

variable {Q R : α → Machine → Prop} {E : Machine → Prop} {m : Machine}

lemma Comes.mono {result : EStateM.Result Stop Machine α} (h : Comes Q E result)
    (weaker : ∀ a m, Q a m → R a m) : Comes R E result := by
  cases result with
  | ok a m => exact weaker a m h
  | error => exact h

lemma Comes.bind {S : β → Machine → Prop} {act : Action α} {f : α → Action β} (first : Comes Q E (act m))
    (second : ∀ a m', Q a m' → Comes S E (f a m')) : Comes S E ((act >>= f) m) := by
  rw [bind_apply]
  cases result : act m with
  | ok a m' =>
    rw [result] at first
    exact second a m' first
  | error =>
    rw [result] at first
    exact first

end Results

/-- An action that keeps an invariant, and leaves the calls `F` alone. -/
def Carries (I : Machine → Prop) (F : List Frame) (Q : α → Prop) (act : Action α) : Prop :=
  ∀ m, I m → m.frames = F → Comes (fun a m' => Q a ∧ I m' ∧ m'.frames = F) I (act m)

namespace Carries

variable {I : Machine → Prop} {F : List Frame} {Q Q' : α → Prop} {R : β → Prop} {act : Action α}
  {f : α → Action β}

lemma bind (first : Carries I F Q act) (second : ∀ a, Q a → Carries I F R (f a)) :
    Carries I F R (act >>= f) :=
  fun m holds frames => (first m holds frames).bind fun a m' ⟨q, holds', frames'⟩ =>
    second a q m' holds' frames'

lemma gives {a : α} (q : Q a) : Carries I F Q (pure a : Action α) := fun _ holds frames => ⟨q, holds, frames⟩

lemma fails (error : RuntimeError) : Carries I F Q (fail error) := fun _ holds _ => holds

lemma breaks (defect : Defect) : Carries I F Q (broken defect) := fun _ holds _ => holds

lemma orBreaks (defect : Defect) {a? : Option α} (q : ∀ a ∈ a?, Q a) : Carries I F Q (orBroken defect a?) := by
  cases a? with
  | none => exact breaks defect
  | some a => exact gives (q a rfl)

lemma looks : Carries I F (fun m => I m ∧ m.frames = F) (get : Action Machine) :=
  fun _ holds frames => ⟨⟨holds, frames⟩, holds, frames⟩

lemma changes {f : Machine → Machine} (keeps : ∀ m, I m → I (f m))
    (frames : ∀ m, (f m).frames = m.frames) : Carries I F (fun _ => True) (modify f : Action Unit) :=
  fun m holds frames_ => ⟨trivial, keeps m holds, (frames m).trans frames_⟩

lemma makes {f : Machine → α × Machine} (q : ∀ m, I m → Q (f m).1) (keeps : ∀ m, I m → I (f m).2)
    (frames : ∀ m, (f m).2.frames = m.frames) : Carries I F Q (modifyGet f : Action α) :=
  fun m holds frames_ => ⟨q m holds, keeps m holds, (frames m).trans frames_⟩

/-! ### The running call -/

lemma frame : Carries I F (fun f => ∃ callers, F = f :: callers) frame := by
  intro m holds frames
  unfold Machine.frame
  split
  · next f callers frames' => exact ⟨⟨callers, frames.symm.trans frames'⟩, holds, frames⟩
  · exact holds

lemma constant (index : UInt8) : Carries I F (fun _ => True) (constant index) :=
  bind frame fun _ _ => orBreaks _ fun _ _ => trivial

lemma name (index : UInt8) : Carries I F (fun _ => True) (name index) := by
  refine bind (constant index) fun c _ => ?_
  cases c with
  | string => exact gives trivial
  | _ => exact breaks _

lemma capturedCell (index : UInt8) :
    Carries I F (fun cell => ∃ f callers, F = f :: callers ∧ f.closure.captured[index.toNat]? = some cell)
      (capturedCell index) :=
  bind frame fun f ⟨callers, frames⟩ => orBreaks _ fun _ there => ⟨f, callers, frames, there⟩

end Carries

namespace Keeper

open Carries

variable {G : Closure → Prop} {Free : Nat → Prop} {I : Machine → Prop} {F : List Frame} {v : Value} {m : Machine}

section Actions

variable (K : Keeper G Free I)
include K

/-! ## The stack -/

lemma push (all : v.All G) : Carries I F (fun _ => True) (push v) := by
  refine fun m holds frames => ⟨trivial, K.stack holds fun w there => ?_, frames⟩
  rcases Array.mem_push.1 there with old | rfl
  · exact (K.holds holds).stack w old
  · exact all

lemma peek (distance : Nat) : Carries I F (·.All G) (peek distance) := by
  intro m holds frames
  unfold Machine.peek
  split
  · exact ⟨(K.holds holds).stack _ (Array.getElem_mem _), holds, frames⟩
  · exact holds

lemma readSlot (slot : Nat) : Carries I F (·.All G) (readSlot slot) := by
  intro m holds frames
  unfold Machine.readSlot
  split
  · next place => exact ⟨(K.holds holds).stack _ (Array.mem_of_getElem? place), holds, frames⟩
  · exact holds

lemma pop : Carries I F (·.All G) pop := by
  intro m holds frames
  unfold Machine.pop
  split
  · next top =>
    refine ⟨(K.holds holds).stack _ (Array.mem_of_back? top), K.stack holds fun w there => ?_, frames⟩
    obtain ⟨i, place⟩ := Array.getElem?_of_mem there
    rw [Array.getElem?_pop] at place
    split at place
    · exact (K.holds holds).stack w (Array.mem_of_getElem? place)
    · cases place
  · exact holds

/-- A value of the sort is put in a place. -/
lemma write (holds : I m) (slot : Nat) (all : v.All G) : I { m with stack := m.stack.setIfInBounds slot v } := by
  refine K.stack holds fun w there => ?_
  rcases Array.mem_or_eq_of_mem_setIfInBounds there with old | rfl
  · exact (K.holds holds).stack w old
  · exact all

lemma replace (distance : Nat) (all : v.All G) : Carries I F (fun _ => True) (replace distance v) := by
  intro m holds frames
  unfold Machine.replace
  split
  · exact ⟨trivial, K.write holds _ all, frames⟩
  · exact holds

lemma writeSlot (slot : Nat) (all : v.All G) : Carries I F (fun _ => True) (writeSlot slot v) := by
  intro m holds frames
  unfold Machine.writeSlot
  split
  · exact ⟨trivial, K.write holds _ all, frames⟩
  · exact holds

lemma cutStack (size : Nat) : Carries I F (fun _ => True) (cutStack size) := by
  refine fun m holds frames => ⟨trivial, K.stack holds fun w there => ?_, frames⟩
  obtain ⟨i, place⟩ := Array.getElem?_of_mem there
  obtain ⟨bound, rfl⟩ := Array.getElem?_eq_some_iff.1 place
  rw [Array.getElem_shrink]
  exact (K.holds holds).stack _ (Array.getElem_mem _)

lemma popClass : Carries I F (fun _ => True) popClass := by
  refine bind K.pop fun v _ => ?_
  cases v with
  | cls => exact gives trivial
  | _ => exact breaks _

/-! ## Objects -/

lemma methodsOf (c : ClassRef) :
    Carries I F (fun t : Table Closure => ∀ x w, t.find? x = some w → G w) (methodsOf c) :=
  bind looks fun _ ⟨holds, _⟩ => orBreaks _ fun t there =>
    (K.holds holds).methods t (Array.mem_of_getElem? there)

lemma method (c : ClassRef) (name : String) : Carries I F G (method c name) := by
  refine bind (K.methodsOf c) fun t all => ?_
  split
  · next closure found => exact gives (all _ _ found)
  · exact fails _

lemma field? (serial : Nat) (name : String) :
    Carries I F (fun v? : Option Value => ∀ v ∈ v?, v.All G) (field? serial name) :=
  bind looks fun _ ⟨holds, _⟩ =>
    bind (Q := fun t : Table Value => ∀ x v, t.find? x = some v → v.All G)
      (orBreaks _ fun t there => (K.holds holds).fields t (Array.mem_of_getElem? there))
      fun _ all => gives fun v found => all _ v found

lemma setField (serial : Nat) (name : String) (all : v.All G) :
    Carries I F (fun _ => True) (setField serial name v) := by
  intro m holds frames
  unfold Machine.setField
  split
  · exact ⟨trivial, K.fields holds all, frames⟩
  · exact holds

lemma makeInstance (c : ClassRef) :
    Carries I F (fun v : Value => v.All G) (modifyGet fun m => m.newInstance c) :=
  makes (fun _ _ => trivial) (fun _ holds => K.newInstance holds) fun _ => rfl

lemma makeBound {receiver : Value} {closure : Closure} (all : receiver.All G) (all' : G closure) :
    Carries I F (fun v : Value => v.All G) (modifyGet fun m => m.newBound receiver closure) :=
  makes (fun _ _ => ⟨all, all'⟩) (fun _ holds => K.same holds rfl rfl rfl rfl rfl rfl rfl) fun _ => rfl

/-! ## Captured variables -/

lemma readCell (cell : Nat) : Carries I F (·.All G) (readCell cell) := by
  refine bind looks fun m ⟨holds, _⟩ => bind (Q := fun c => m.cells[cell]? = some c)
    (orBreaks _ fun _ there => there) fun c there => ?_
  cases c with
  | opened slot => exact K.readSlot slot
  | closed v => exact gives ((K.holds holds).cells v (Array.mem_of_getElem? there))

lemma writeCell {cell : Nat} (free : Free cell) (all : v.All G) :
    Carries I F (fun _ => True) (writeCell cell v) := by
  intro m holds frames
  rw [writeCell_apply]
  split
  · exact holds
  · exact K.writeSlot _ all m holds frames
  · next closed => exact ⟨trivial, K.cell holds closed free all, frames⟩

lemma closeCells (last : Nat) : Carries I F (fun _ => True) (closeCells last) := by
  intro m holds frames
  unfold Machine.closeCells
  split
  · next parts => exact ⟨trivial, K.close holds parts, frames⟩
  · exact holds

/-! ## Operators -/

lemma numeric {f : Float → Float → Value} (plain : ∀ x y, (f x y).All G) :
    Carries I F (fun _ => True) (numeric f) := by
  refine bind (K.peek 1) fun a _ => bind (K.peek 0) fun b _ => ?_
  split
  · exact bind K.pop fun _ _ => bind K.pop fun _ _ => K.push (plain _ _)
  · exact fails _

lemma add : Carries I F (fun _ => True) add := by
  refine bind (K.peek 1) fun a _ => bind (K.peek 0) fun b _ => ?_
  split
  · exact bind K.pop fun _ _ => bind K.pop fun _ _ => K.push trivial
  · refine bind (Q := fun _ => True) (makes (fun _ _ => trivial) (fun _ holds => ?_) fun _ => rfl) fun _ _ =>
      bind K.pop fun _ _ => bind K.pop fun _ _ => K.push trivial
    exact K.same holds rfl rfl rfl rfl rfl rfl rfl
  · exact fails _

lemma negate : Carries I F (fun _ => True) negate := by
  refine bind (K.peek 0) fun a _ => ?_
  split
  · exact bind K.pop fun _ _ => K.push trivial
  · exact fails _

/-! ## Variables and properties -/

lemma readGlobal (name : String) : Carries I F (fun _ => True) (readGlobal name) := by
  refine bind looks fun m ⟨holds, _⟩ => ?_
  split
  · next v found => exact K.push ((K.holds holds).globals _ v found)
  · exact fails _

lemma defineGlobal (name : String) : Carries I F (fun _ => True) (defineGlobal name) :=
  bind K.pop fun _ all => changes (fun _ holds => K.globals holds all) fun _ => rfl

lemma writeGlobal (name : String) : Carries I F (fun _ => True) (writeGlobal name) := by
  refine bind looks fun m _ => ?_
  split
  · exact bind (K.peek 0) fun _ all => changes (fun _ holds => K.globals holds all) fun _ => rfl
  · exact fails _

lemma bindMethod (c : ClassRef) (name : String) : Carries I F (fun _ => True) (bindMethod c name) :=
  bind (K.method c name) fun _ all => bind K.pop fun _ all' => bind (K.makeBound all' all) fun _ all'' =>
    K.push all''

lemma failsUnread {α : Type} {Q : α → Prop} (error : RuntimeError) : Carries I F Q (failUnread error) := by
  intro m holds frames
  unfold failUnread
  refine (Carries.frame m holds frames).bind fun f m₁ ⟨_, holds₁, _⟩ => Comes.bind (Q := fun _ => I) ?_ fun _ _ h => h
  unfold goto
  split
  · exact K.same holds₁ rfl rfl rfl rfl rfl rfl rfl
  · exact holds₁

lemma readProperty (index : UInt8) : Carries I F (fun _ => True) (readProperty index) := by
  refine bind (K.peek 0) fun a _ => ?_
  split
  · refine bind (Carries.name index) fun x _ => bind (K.field? _ x) fun v? all => ?_
    split
    · next v => exact bind K.pop fun _ _ => K.push (all v rfl)
    · exact K.bindMethod _ _
  · exact K.failsUnread _

lemma writeProperty (index : UInt8) : Carries I F (fun _ => True) (writeProperty index) := by
  refine bind (K.peek 1) fun a _ => ?_
  split
  · exact bind (Carries.name index) fun x _ => bind K.pop fun v all => bind (K.setField _ x all) fun _ _ =>
      bind K.pop fun _ _ => K.push all
  · exact K.failsUnread _

end Actions

/-! ## Calls -/

/-- The calls are as before, or a closure of the sort has been called. -/
def Calling (G : Closure → Prop) (I : Machine → Prop) (F : List Frame) (m : Machine) : Prop :=
  I m ∧ (m.frames = F ∨ ∃ w base, G w ∧ m.frames = ⟨w, 0, base⟩ :: F)

lemma calling {act : Action Unit} (h : Carries I F (fun _ => True) act) (holds : I m)
    (frames : m.frames = F) : Comes (fun _ m' => Calling G I F m') I (act m) :=
  (h m holds frames).mono fun _ _ ⟨_, holds', frames'⟩ => ⟨holds', .inl frames'⟩

section Calls

variable (K : Keeper G Free I)
include K

lemma call {w : Closure} (all : G w) (count : UInt8) (holds : I m) (frames : m.frames = F) :
    Comes (fun _ m' => Calling G I F m') I (call w count m) := by
  unfold Machine.call
  dsimp only
  split
  · exact holds
  · split
    · exact holds
    · split
      · refine ⟨K.same holds rfl rfl rfl rfl rfl rfl rfl, .inr ⟨w, m.stack.size - 1 - count.toNat, all, ?_⟩⟩
        rw [← frames]
      · exact holds

/-- The arguments that are on the stack are of the sort. -/
lemma all_arguments (holds : I m) (count : UInt8) : ∀ v ∈ m.arguments count, v.All G := by
  intro v there
  unfold Machine.arguments at there
  obtain ⟨i, lower, rfl⟩ := Array.mem_extract_iff_getElem.1 there
  exact (K.holds holds).stack _ (Array.getElem_mem _)

/-- What a call shows is of the sort. -/
lemma remember (holds : I m) (function : Nat) {given : Array Value} {answer? : Option Value}
    (every : ∀ v ∈ given, v.All G) (answer : ∀ v ∈ answer?, v.All G) : I (m.remember function given answer?) :=
  K.remembers holds fun _ shown => shows_of (K.holds holds).fields (K.holds holds).methods every answer shown

lemma callNative (f : NativeRef) (count : UInt8) : Carries I F (fun _ => True) (callNative f count) := by
  intro m holds frames
  have every := K.all_arguments holds count
  cases result : Machine.callNative f count m with
  | ok _ m' =>
    obtain ⟨body, blueprint, known, answer, rfl⟩ := callNative_ok result
    obtain ⟨all, built⟩ := K.builds holds known every answer
    have answered : ∀ v ∈ some (m.build blueprint).1, v.All G := fun v same => Option.some.inj same ▸ all
    have remembered := K.remember built f.serial every answered
    refine ⟨trivial, K.stack remembered fun v there => ?_, (m.answered_frames f count blueprint).trans frames⟩
    rcases Array.mem_push.1 there with old | rfl
    · obtain ⟨i, place⟩ := Array.getElem?_of_mem old
      obtain ⟨bound, rfl⟩ := Array.getElem?_eq_some_iff.1 place
      rw [Array.getElem_shrink]
      exact (K.holds holds).stack _ (Array.getElem_mem _)
    · exact all
  | error stop m' =>
    rcases callNative_error result with rfl | rfl
    · exact holds
    · exact K.remember holds f.serial every nofun

lemma construct (c : ClassRef) (count : UInt8) (holds : I m) (frames : m.frames = F) :
    Comes (fun _ m' => Calling G I F m') I (construct c count m) := by
  refine (K.makeInstance c m holds frames).bind fun made m₁ ⟨all, holds₁, frames₁⟩ => ?_
  refine (K.replace _ all m₁ holds₁ frames₁).bind fun _ m₂ ⟨_, holds₂, frames₂⟩ => ?_
  refine (K.methodsOf c m₂ holds₂ frames₂).bind fun t m₃ ⟨methods, holds₃, frames₃⟩ => ?_
  cases found : t.find? "init" with
  | some initializer => exact K.call (methods _ _ found) count holds₃ frames₃
  | none =>
    have checks : Carries I F (fun _ => True) (unless count = 0 do fail (.arityMismatch 0 count) : Action Unit) := by
      by_cases zero : count = 0
      · rw [show (unless count = 0 do fail (.arityMismatch 0 count) : Action Unit) = Pure.pure () from if_pos zero]
        exact gives trivial
      · rw [show (unless count = 0 do fail (.arityMismatch 0 count) : Action Unit) =
          fail (.arityMismatch 0 count) from if_neg zero]
        exact fails _
    exact calling checks holds₃ frames₃

lemma callValue {callee : Value} (all : callee.All G) (count : UInt8) (holds : I m) (frames : m.frames = F) :
    Comes (fun _ m' => Calling G I F m') I (callValue callee count m) := by
  cases callee with
  | closure w => exact K.call all count holds frames
  | bound serial receiver w =>
    exact (K.replace _ all.1 m holds frames).bind fun _ m' ⟨_, holds', frames'⟩ =>
      K.call all.2 count holds' frames'
  | cls c => exact K.construct c count holds frames
  | native f => exact calling (K.callNative f count) holds frames
  | _ => exact holds

lemma invokeFromClass (c : ClassRef) (name : String) (count : UInt8) (holds : I m) (frames : m.frames = F) :
    Comes (fun _ m' => Calling G I F m') I (invokeFromClass c name count m) :=
  (K.method c name m holds frames).bind fun _ _ ⟨all, holds', frames'⟩ => K.call all count holds' frames'

lemma invoke (name : String) (count : UInt8) (holds : I m) (frames : m.frames = F) :
    Comes (fun _ m' => Calling G I F m') I (invoke name count m) := by
  refine (K.peek _ m holds frames).bind fun receiver m₁ ⟨_, holds₁, frames₁⟩ => ?_
  cases receiver with
  | inst serial c =>
    refine (K.field? serial name m₁ holds₁ frames₁).bind fun v? m₂ ⟨all, holds₂, frames₂⟩ => ?_
    cases v? with
    | some callee =>
      exact (K.replace _ (all callee rfl) m₂ holds₂ frames₂).bind fun _ m₃ ⟨_, holds₃, frames₃⟩ =>
        K.callValue (all callee rfl) count holds₃ frames₃
    | none => exact K.invokeFromClass c name count holds₂ frames₂
  | _ => exact holds₁

/-- A return takes the running call away. -/
lemma ret (holds : I m) (frames : m.frames = F) :
    Comes (fun _ m' => I m' ∧ m'.frames = F.tail) I (ret m) := by
  refine (K.pop m holds frames).bind fun result m₁ ⟨all, holds₁, frames₁⟩ => ?_
  refine (Carries.frame m₁ holds₁ frames₁).bind fun f m₂ ⟨_, holds₂, frames₂⟩ => ?_
  have rest : Carries I F.tail (fun _ => True) (do
      Machine.closeCells f.base
      Machine.cutStack f.base
      if (← get).frames.isEmpty then throw Stop.finished else Machine.push result : Action Unit) := by
    refine bind (K.closeCells _) fun _ _ => bind (K.cutStack _) fun _ _ => bind looks fun m _ => ?_
    split
    · exact fun _ holds _ => holds
    · exact K.push all
  exact (rest { m₂ with frames := m₂.frames.tail }
    (K.same holds₂ rfl rfl rfl rfl rfl rfl rfl) (congrArg List.tail frames₂)).mono
      fun _ _ ⟨_, known⟩ => known

/-! ## Instructions -/

/-- An instruction that only passes values around keeps the invariant. -/
theorem carries_exec {i : Instr} (passes : i.Passes)
    (spared : ∀ f callers index cell, F = f :: callers → i = .setUpvalue index →
      f.closure.captured[index.toNat]? = some cell → Free cell) :
    Carries I F (fun _ => True) (exec i) := by
  have pushes : ∀ {act : Action Value}, Carries I F (·.All G) act →
      Carries I F (fun _ => True) (do Machine.push (← act)) := fun reads => bind reads fun _ all => K.push all
  cases i with
  | constant index =>
    refine bind (Carries.constant index) fun c _ => K.push ?_
    cases c <;> trivial
  | pushNil | pushTrue | pushFalse => exact K.push trivial
  | pop => exact bind K.pop fun _ _ => gives trivial
  | getLocal slot => exact bind Carries.frame fun f _ => pushes (K.readSlot _)
  | setLocal slot => exact bind Carries.frame fun f _ => bind (K.peek 0) fun _ all => K.writeSlot _ all
  | getGlobal index => exact bind (Carries.name index) fun x _ => K.readGlobal x
  | defineGlobal index => exact bind (Carries.name index) fun x _ => K.defineGlobal x
  | setGlobal index => exact bind (Carries.name index) fun x _ => K.writeGlobal x
  | getUpvalue index => exact bind (Carries.capturedCell index) fun cell _ => pushes (K.readCell cell)
  | setUpvalue index =>
    exact bind (Carries.capturedCell index) fun cell ⟨f, callers, frames, there⟩ => bind (K.peek 0) fun _ all =>
      K.writeCell (spared f callers index cell frames rfl there) all
  | getProperty index => exact K.readProperty index
  | setProperty index => exact K.writeProperty index
  | getSuper index => exact bind (Carries.name index) fun x _ => bind K.popClass fun c _ => K.bindMethod c x
  | equal => exact bind K.pop fun _ _ => bind K.pop fun _ _ => K.push trivial
  | greater | less | subtract | multiply | divide => exact K.numeric fun _ _ => trivial
  | add => exact K.add
  | not => exact bind K.pop fun _ _ => K.push trivial
  | negate => exact K.negate
  | print =>
    refine bind K.pop fun _ _ => changes (fun _ holds => ?_) fun _ => rfl
    exact K.same holds rfl rfl rfl rfl rfl rfl rfl
  | closeUpvalue => exact bind looks fun _ _ => bind (K.closeCells _) fun _ _ => bind K.pop fun _ _ => gives trivial
  | makeClass index =>
    exact bind (Carries.name index) fun x _ => bind (Q := fun _ => True)
      (makes (fun _ _ => trivial) (fun _ holds => K.newClass holds) fun _ => rfl) fun _ _ => K.push trivial
  | _ => exact passes.elim

end Calls

end Keeper

/-! ## The least invariant -/

/-- What holds of all entries holds of all when one of them is changed. -/
lemma forall_modify {α : Type} {P : α → Prop} {entries : Array α} {i : Nat} {change : α → α}
    (every : ∀ x ∈ entries, P x) (changed : ∀ x ∈ entries, P (change x)) : ∀ x ∈ entries.modify i change, P x := by
  intro x there
  rcases mem_modify there with old | ⟨y, old, rfl⟩
  · exact every x old
  · exact changed y old

section Holds

variable {G : Closure → Prop} {N : Table Closure → Prop} {m m' : Machine}

/-- There are no closures in a machine that has done nothing. -/
lemma holds_empty (G : Closure → Prop) : Holds G empty where
  stack _ there := absurd there (Array.not_mem_empty _)
  globals x _ found := nomatch (Table.find?_empty x).symm.trans found
  fields t there := absurd there (Array.not_mem_empty t)
  methods t there := absurd there (Array.not_mem_empty t)
  cells _ there := absurd there (Array.not_mem_empty _)
  past call there := absurd there (Array.not_mem_empty call)
  natives body there := absurd there (Array.not_mem_empty body)

lemma Holds.of_same (h : Holds G m) (stack : m'.stack = m.stack) (globals : m'.globals = m.globals)
    (fields : m'.fields = m.fields) (methods : m'.methods = m.methods) (cells : m'.cells = m.cells)
    (natives : m'.natives = m.natives) (hostCalls : m'.hostCalls = m.hostCalls) : Holds G m' where
  stack := stack ▸ h.stack
  globals := globals ▸ h.globals
  fields := fields ▸ h.fields
  methods := methods ▸ h.methods
  cells := cells ▸ h.cells
  past := hostCalls ▸ h.past
  natives := natives ▸ h.natives

lemma Holds.mono {G' : Closure → Prop} (h : Holds G m) (weaker : ∀ w, G w → G' w) : Holds G' m where
  stack v there := (h.stack v there).mono weaker
  globals x v found := (h.globals x v found).mono weaker
  fields t there x v found := (h.fields t there x v found).mono weaker
  methods t there x w found := weaker w (h.methods t there x w found)
  cells v there := (h.cells v there).mono weaker
  past call there v shown := (h.past call there v shown).mono weaker
  natives body there := (h.natives body there).mono fun _ may serial => weaker _ (may serial)

/-- In a memory that is in order, the closures are sound. -/
lemma Memory.holds {bare : Prop} {c : Census} {S : List Slot} (h : Memory bare c S m)
    (sound : ∀ w : Closure, w.Sound bare c → G w) : Holds G m where
  stack v there := (h.stack.sound there).all sound
  globals x v found := (h.objects.globals x v found).all sound
  fields t there x v found := (h.objects.fields t there x v found).all sound
  methods t there x w found := sound w (h.objects.methods t there x w found)
  cells v there := by
    obtain ⟨i, closed⟩ := Array.getElem?_of_mem there
    obtain ⟨k, known⟩ := h.cells.kind closed
    exact (h.cells.closed closed known).2.all sound
  past call there v shown := (h.objects.past call there v shown).all sound
  natives body there := NativeBody.Makes.mono (h.objects.fair body there) fun _ may serial =>
    sound _ (closure_sound may serial)

lemma Holds.pop (h : Holds G m) : Holds G { m with stack := m.stack.pop } := by
  refine { h with stack := fun v there => ?_ }
  obtain ⟨i, place⟩ := Array.getElem?_of_mem there
  rw [Array.getElem?_pop] at place
  split at place
  · exact h.stack v (Array.mem_of_getElem? place)
  · cases place

lemma Holds.setGlobal (h : Holds G m) (x : String) {v : Value} (all : v.All G) :
    Holds G { m with globals := m.globals.insert x v } := { h with
  globals := fun y w found => by
    rw [Table.find?_insert] at found
    split at found
    · exact Option.some.inj found ▸ all
    · exact h.globals y w found }

lemma Holds.setField (h : Holds G m) (serial : Nat) (x : String) {v : Value} (all : v.All G) :
    Holds G { m with fields := m.fields.modify serial (·.insert x v) } := { h with
  fields := forall_modify h.fields fun u old y w found => by
    rw [Table.find?_insert] at found
    split at found
    · exact Option.some.inj found ▸ all
    · exact h.fields u old y w found }

lemma Holds.setCell (h : Holds G m) (i : Nat) {v : Value} (all : v.All G) :
    Holds G { m with cells := m.cells.setIfInBounds i (.closed v) } := { h with
  cells := fun u there => by
    rcases Array.mem_or_eq_of_mem_setIfInBounds there with old | same
    · exact h.cells u old
    · exact Cell.closed.inj same ▸ all }

/-- Cells that are closed take over what is in their places. -/
lemma Holds.close (h : Holds G m) {last : Nat} {openCells : List Nat} {closing : List (Nat × Value)}
    (parts : m.partCells last m.openCells = some (closing, openCells)) :
    Holds G { m with openCells, cells := closeAll closing m.cells } := { h with
  cells := fun v there => by
    obtain ⟨-, closes, -⟩ := partCells_spec parts
    obtain ⟨j, place⟩ := Array.getElem?_of_mem there
    have bound := (Array.getElem?_eq_some_iff.1 place).1
    rw [size_closeAll] at bound
    by_cases closed : j ∈ closing.map Prod.fst
    · obtain ⟨w, among, place'⟩ := closeAll_closes closed bound
      obtain ⟨slot, -, -, value⟩ := closes j w among
      rw [Cell.closed.inj (Option.some.inj (place.symm.trans place'))]
      exact h.stack w (Array.mem_of_getElem? value)
    · rw [closeAll_other closed] at place
      exact h.cells v (Array.mem_of_getElem? place) }

lemma Holds.setMethods (h : Holds G m) (i : Nat) {change : Table Closure → Table Closure}
    (all : ∀ t ∈ m.methods, ∀ x w, (change t).find? x = some w → G w) :
    Holds G { m with methods := m.methods.modify i change } :=
  { h with methods := forall_modify h.methods all }

lemma Holds.newClass (h : Holds G m) : Holds G { m with methods := m.methods.push .empty } := { h with
  methods := fun t there x w found => by
    rcases Array.mem_push.1 there with old | rfl
    · exact h.methods t old x w found
    · exact nomatch (Table.find?_empty x).symm.trans found }

lemma Holds.newInstance (h : Holds G m) : Holds G { m with fields := m.fields.push .empty } := { h with
  fields := fun t there x w found => by
    rcases Array.mem_push.1 there with old | rfl
    · exact h.fields t old x w found
    · exact nomatch (Table.find?_empty x).symm.trans found }

lemma Holds.newNative (h : Holds G m) {body : NativeBody} (makes : body.Makes fun p => ∀ serial, G ⟨serial, p, #[]⟩) :
    Holds G { m with natives := m.natives.push body } := { h with
  natives := fun _ there => (Array.mem_push.1 there).elim (h.natives _) fun same => same ▸ makes }

/-- What functions of the host answer is of the sort, and so is all that they make. -/
lemma Holds.build (h : Holds G m) (copied : Copied G) {self : Nat} {given : Array Value} {b : Blueprint}
    (fair : b.Fair (fun p => ∀ serial, G ⟨serial, p, #[]⟩) (m.host self) given) (every : ∀ v ∈ given, v.All G) :
    (m.build b).1.All G ∧ Holds G (m.build b).2 := by
  have sees : ∀ v, (m.host self).Sees given v → v.All G := fun v sees =>
    sees_of h.fields h.methods h.past every sees
  cases b with
  | value v => exact ⟨Value.From.all fair sees (fun there => nomatch there), h⟩
  | string | prototype => exact ⟨trivial, h.of_same rfl rfl rfl rfl rfl rfl rfl⟩
  | closure name => exact ⟨fair _ _, h.of_same rfl rfl rfl rfl rfl rfl rfl⟩
  | bound name => exact ⟨⟨trivial, fair _ _⟩, h.of_same rfl rfl rfl rfl rfl rfl rfl⟩
  | cls name => exact ⟨trivial, h.newClass⟩
  | inst name => exact ⟨trivial, h.newClass.newInstance⟩
  | native name arity => exact ⟨trivial, h.newNative givesNil_makes⟩
  | objects new v =>
    obtain ⟨objects, from_⟩ := fair
    have closures : ∀ {i : Nat} {p captured}, new.closures[i]? = some (p, captured) → ∀ serial,
        G ⟨serial, p, captured⟩ := by
      intro i p captured there serial
      cases objects.closures there with
      | copy known => exact copied (Value.From.all known sees fun there => nomatch there)
      | new may => exact may serial
    have methods : ∀ t ∈ m.methods ++ new.methods, ∀ x w, t.find? x = some w → G w := fun t there x w found =>
      (Array.mem_append.1 there).elim (fun old => h.methods t old x w found) fun made =>
        (objects.methods t made x w found).all sees closures
    have fields : ∀ t ∈ m.fields ++ new.fields, ∀ x v, t.find? x = some v → v.All G := fun t there x v found =>
      (Array.mem_append.1 there).elim (fun old => h.fields t old x v found) fun made =>
        (objects.fields t made x v found).all sees closures
    exact ⟨from_.all sees closures,
      { h with methods, fields, natives := natives_extend h.natives givesNil_makes new }⟩

lemma classes_any (m : Machine) : Classes (fun _ => True) m :=
  ⟨fun _ _ => trivial, fun _ _ _ _ _ _ _ _ _ => trivial⟩

lemma Classes.of_same (h : Classes N m) (methods : m'.methods = m.methods) (natives : m'.natives = m.natives) :
    Classes N m' :=
  ⟨methods ▸ h.tables, natives ▸ h.natives⟩

lemma Classes.newClass (h : Classes N m) (none : N .empty) : Classes N { m with methods := m.methods.push .empty } :=
  { h with tables := fun t there => (Array.mem_push.1 there).elim (h.tables t) fun same => same ▸ none }

lemma Classes.newNative (h : Classes N m) {body : NativeBody} (classes : body.Classes N) :
    Classes N { m with natives := m.natives.push body } :=
  { h with natives := fun _ there => (Array.mem_push.1 there).elim (h.natives _) fun same => same ▸ classes }

/-- The classes that there are when a function of the host has answered are of the sort. -/
lemma Classes.build (h : Classes N m) (none : N .empty) {self : Nat} {given : Array Value} {body : NativeBody}
    {b : Blueprint} (there : body ∈ m.natives) (answer : body (m.host self) given = .ok b) :
    Classes N (m.build b).2 := by
  cases b with
  | cls => exact h.newClass none
  | inst => exact (h.newClass none).of_same rfl rfl
  | native => exact h.newNative givesNil_classes
  | objects new v =>
    refine ⟨fun t made => (Array.mem_append.1 made).elim (h.tables t) ?_, natives_extend h.natives givesNil_classes new⟩
    exact h.natives body there _ _ _ _ answer t
  | _ => exact h.of_same rfl rfl

/-- It may be known of closures that they are of a sort, and of the methods of each class something that holds
of none. -/
lemma holds_keeper (copied : Copied G) (none : N .empty) :
    Keeper G (fun _ => True) fun m => Holds G m ∧ Classes N m where
  holds h := h.1
  same h stack globals fields methods cells natives hostCalls :=
    ⟨h.1.of_same stack globals fields methods cells natives hostCalls, h.2.of_same methods natives⟩
  stack h all := ⟨{ h.1 with stack := all }, h.2.of_same rfl rfl⟩
  globals h all := ⟨h.1.setGlobal _ all, h.2.of_same rfl rfl⟩
  fields h all := ⟨h.1.setField _ _ all, h.2.of_same rfl rfl⟩
  cell h _ _ all := ⟨h.1.setCell _ all, h.2.of_same rfl rfl⟩
  close h parts := ⟨h.1.close parts, h.2.of_same rfl rfl⟩
  newClass h := ⟨h.1.newClass, h.2.newClass none⟩
  newInstance h := ⟨h.1.newInstance, h.2.of_same rfl rfl⟩
  builds h known every answer := by
    have there := Array.mem_of_getElem? known
    obtain ⟨all, built⟩ := h.1.build copied (h.1.natives _ there _ _ _ answer) every
    exact ⟨all, built, h.2.build none there answer⟩
  remembers h shown := ⟨{ h.1 with
    past := fun call there => (Array.mem_push.1 there).elim (h.1.past call) fun same => same ▸ shown },
    h.2.of_same rfl rfl⟩

end Holds

end Machine

end Lox
