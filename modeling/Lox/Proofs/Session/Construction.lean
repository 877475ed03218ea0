import Lox.Proofs.Session.Invocation
import Lox.Proofs.Session.Receivers

/-!
# Construction

Calling a class makes an instance, puts it in the place of the callee and calls the initializer there, if the
class has one.  An initializer leaves slot zero alone and returns it.  So whatever it does besides, the call
fails, or goes on forever, or leaves just the new instance in the place of the callee; and in the same way
an initializer that is called directly leaves its receiver (`call_constructs`).  A class that a function of the
host makes may have any function for an initializer, and then the call leaves what that returns
(`made_class_misinitializes`).
-/

namespace Lox

open Compile Machine

namespace Machine

variable {bare : Prop} {m m' : Machine} {f : Frame} {callers rest : List Frame} {i : Instr} {a : Unit} {v : Value}
  {base : Nat} {index count : UInt8}

/-! ## Initializers at work -/

/-- Above the calls `rest` there is one of an initializer, whose slot zero has a value, and calls that it has led
to. -/
def Serves (base : Nat) (rest : List Frame) (v : Value) (m : Machine) : Prop :=
  ∃ inner g, m.frames = inner ++ g :: rest ∧ g.base = base ∧ g.closure.prototype.Initializes ∧
    m.stack[base]? = some v

/-- The calls `rest` go on, with one value in a place on top of the stack. -/
structure Answers (base : Nat) (rest : List Frame) (v : Value) (m : Machine) : Prop where
  frames : m.frames = rest
  size : m.stack.size = base + 1
  value : m.stack[base]? = some v

lemma Serves.length (serves : m.Serves base rest v) : rest.length < m.frames.length := by
  obtain ⟨inner, g, frames, -⟩ := serves
  rw [frames, List.length_append, List.length_cons]
  omega

lemma ret_answers (result : exec .ret (m.past f callers .ret) = .ok a m') (top : m.stack.back? = some v)
    (bound : f.base < m.stack.size) : m'.Answers f.base callers v := by
  have result : ret (m.past f callers .ret) = .ok a m' := result
  rw [ret_apply (m := m.past f callers .ret) rfl top] at result
  split at result
  · cases result
  · dsimp only at result
    split at result
    · cases result
    · obtain ⟨-, rfl⟩ := EStateM.Result.ok.inj result
      have size : (m.stack.pop.shrink f.base).size = f.base := by
        rw [Array.size_shrink, Array.size_pop]
        omega
      refine ⟨rfl, (Array.size_push _).trans (congrArg Nat.succ size), ?_⟩
      refine (Array.getElem?_push ..).trans (if_pos size.symm)

/-- A step of an initializer, or of a call that it has led to, leads to such a step, or else the initializer
answers with its slot zero. -/
lemma Serves.step (serves : m.Serves base rest v) (respectful : m.Respectful) (executes : m.Executes f callers i)
    (ordered : m.Ordered) (result : m.step = .ok a m') : m'.Serves base rest v ∨ m'.Answers base rest v := by
  obtain ⟨inner, g, frames, rfl, initializes, value⟩ := serves
  have there : g ∈ m.frames := frames ▸ List.mem_append_right _ List.mem_cons_self
  have passage := (respectful.leaves executes ordered result).passage
  have keeps : i ≠ .ret ∨ g ∈ callers → m'.stack[g.base]? = some v := fun goesOn =>
    (respectful.slotZero executes result there goesOn).trans value
  generalize split : m'.frames = frames' at passage
  have calls := executes.frames.symm.trans frames
  cases inner with
  | nil =>
    obtain ⟨rfl, rfl⟩ := List.cons.inj calls
    cases passage with
    | goesOn _ other => exact .inl ⟨[], _, split, rfl, initializes, keeps (.inl other)⟩
    | enters calls =>
      exact .inl ⟨[_], _, split, rfl, initializes, keeps (.inl fun same => by subst same; cases calls)⟩
    | returns same =>
      subst same
      have top := (respectful.prepared f callers executes.frames).returns executes.decoded initializes
      rw [executes.step] at result
      exact .inr (ret_answers result (top.trans value) (Array.getElem?_eq_some_iff.1 value).1)
  | cons h inner =>
    obtain ⟨rfl, rfl⟩ := List.cons.inj calls
    have still := keeps (.inr (List.mem_append_right _ List.mem_cons_self))
    cases passage with
    | goesOn => exact .inl ⟨_ :: inner, g, split, rfl, initializes, still⟩
    | enters => exact .inl ⟨_ :: _ :: inner, g, split, rfl, initializes, still⟩
    | returns => exact .inl ⟨inner, g, split, rfl, initializes, still⟩

/-- A run ends well when the script returns. -/
lemma Executes.finishes (executes : m.Executes f callers i) (result : m.step = .error .finished m') :
    i = .ret ∧ callers = [] := by
  rw [executes.step] at result
  obtain rfl := exec_finished result
  have lower := executes.zero f (executes.frames ▸ List.mem_cons_self)
  have top : m.stack.back? = some m.stack[m.stack.size - 1] := Array.getElem?_eq_getElem _
  have result : ret (m.past f callers .ret) = .error .finished m' := result
  rw [ret_apply (m := m.past f callers .ret) rfl top] at result
  split at result
  · cases result
  · dsimp only at result
    split at result
    · next none => exact ⟨rfl, List.isEmpty_iff.1 none⟩
    · cases result

/-! ## The calls -/

/-- An initializer is called in the place of its receiver. -/
lemma call_serves {w : Closure} (result : call w count m = .ok a m') (initializes : w.prototype.Initializes)
    (place : base + count.toNat + 1 = m.stack.size) (value : m.stack[base]? = some v) :
    m'.Serves base m.frames v := by
  obtain ⟨-, rfl⟩ := call_ok result
  have same : m.calleePlace count = base := by
    unfold calleePlace
    omega
  rw [same]
  exact ⟨[], ⟨w, 0, base⟩, rfl, rfl, initializes, value⟩

/-- Calling a class puts a new instance in the place of the callee. -/
lemma construct_serves {c : ClassRef} (result : construct c count m = .ok a m')
    (tables : ∀ t ∈ m.methods, t.InitializesWell) (place : base + count.toNat + 1 = m.stack.size) :
    m'.Serves base m.frames (.inst m.fields.size c) ∨ m'.Answers base m.frames (.inst m.fields.size c) := by
  obtain ⟨made, m₁, new, result⟩ := bind_ok result
  obtain ⟨rfl, rfl⟩ := EStateM.Result.ok.inj new
  obtain ⟨_, m₂, placed, result⟩ := bind_ok result
  obtain ⟨bound, rfl⟩ := replace_ok placed
  obtain ⟨t, found, result⟩ := inspect_ok inferInstance result
  have there := methodsOf_ok found
  have among : t ∈ m.methods := Array.mem_of_getElem? there
  have same : m.stack.size - 1 - count.toNat = base := by omega
  have value : (m.stack.setIfInBounds (m.stack.size - 1 - count.toNat) (.inst m.fields.size c))[base]? =
      some (.inst m.fields.size c) := by
    rw [same]
    exact Array.getElem?_setIfInBounds_self_of_lt (by omega)
  cases initializer : t.find? "init" with
  | some w =>
    rw [initializer] at result
    have place : base + count.toNat + 1 =
        (m.stack.setIfInBounds (m.stack.size - 1 - count.toNat) (.inst m.fields.size c)).size := by
      rw [Array.size_setIfInBounds, place]
    have serves := call_serves result (tables t among w initializer) place value
    exact .inl serves
  | none =>
    rw [initializer] at result
    by_cases zero : count = 0
    · rw [show (unless count = 0 do fail (.arityMismatch 0 count) : Action Unit) = pure () from if_pos zero] at result
      obtain ⟨-, rfl⟩ := EStateM.Result.ok.inj result
      refine .inr ⟨rfl, (Array.size_setIfInBounds ..).trans ?_, value⟩
      rw [← place, zero]
      rfl
    · rw [show (unless count = 0 do fail (.arityMismatch 0 count) : Action Unit) =
        fail (.arityMismatch 0 count) from if_neg zero] at result
      cases result

/-- In a function, the instruction calls a class, directly or in a field, or an initializer, as a method or bound to
a receiver, and this is the value that it is to leave: the next instance, or else the receiver. -/
inductive Due (m : Machine) (p : Prototype) : Instr → Value → Prop
  | construct {count : UInt8} {c} (callee : m.top? count.toNat = some (.cls c)) : Due m p (.call count)
      (.inst m.fields.size c)
  | constructField {index count : UInt8} {serial r t c} (receiver : m.top? count.toNat = some (.inst serial r))
      (fields : m.fields[serial]? = some t) (field : t.find? (p.chunk.constantText index) = some (.cls c)) :
      Due m p (.invoke index count) (.inst m.fields.size c)
  | initializer {index count : UInt8} {serial r t} (named : p.chunk.constantText index = "init")
      (receiver : m.top? count.toNat = some (.inst serial r)) (fields : m.fields[serial]? = some t)
      (noField : t.find? "init" = none) : Due m p (.invoke index count) (.inst serial r)
  | superInitializer {index count : UInt8} {v} (named : p.chunk.constantText index = "init")
      (receiver : m.top? (count.toNat + 1) = some v) : Due m p (.superInvoke index count) v
  | boundInitializer {count : UInt8} {serial v w} (callee : m.top? count.toNat = some (.bound serial v w))
      (initializes : w.prototype.Initializes) : Due m p (.call count) v

/-- What is called has nothing to do with the journal. -/
lemma Due.aside {p : Prototype} (due : m.Due p i v) (journal : Array Event) : { m with journal }.Due p i v := by
  cases due with
  | construct callee => exact .construct callee
  | constructField receiver fields field => exact .constructField receiver fields field
  | initializer named receiver fields noField => exact .initializer named receiver fields noField
  | superInitializer named receiver => exact .superInitializer named receiver
  | boundInitializer callee initializes => exact .boundInitializer callee initializes

lemma Due.calls {p : Prototype} (due : m.Due p i v) : ∃ taken, i.Calls taken := by
  cases due with
  | construct | boundInitializer => exact ⟨_, .call _⟩
  | constructField | initializer => exact ⟨_, .invoke _ _⟩
  | superInitializer => exact ⟨_, .superInvoke _ _⟩

/-- The first step of such a call. -/
lemma Due.serves (due : m.Due f.closure.prototype i v) (tables : ∀ t ∈ m.methods, t.InitializesWell)
    {taken : Nat} (calls : i.Calls taken) (place : base + taken = m.stack.size)
    (result : exec i (m.past f callers i) = .ok a m') :
    m'.Serves base ({ f with ip := f.ip + i.size } :: callers) v ∨
      m'.Answers base ({ f with ip := f.ip + i.size } :: callers) v := by
  cases due with
  | @construct count c callee =>
    cases calls with
    | call =>
    obtain ⟨u, looked, result⟩ := inspect_ok inferInstance result
    have there := peek_ok looked
    obtain rfl := Option.some.inj (callee.symm.trans there)
    exact construct_serves (m := m.past f callers (.call count)) result tables place
  | @constructField index count serial r t c receiver fields field =>
    cases calls with
    | invoke =>
    obtain ⟨x, named, result⟩ := inspect_ok inferInstance result
    obtain ⟨rfl, -⟩ := name_ok (m := m.past f callers (.invoke index count)) rfl named
    obtain ⟨u, looked, result⟩ := inspect_ok inferInstance result
    have there := peek_ok looked
    obtain rfl := Option.some.inj (receiver.symm.trans there)
    obtain ⟨field', found, result⟩ := inspect_ok inferInstance result
    obtain ⟨t', entry, rfl⟩ := field?_ok found
    obtain rfl := Option.some.inj (fields.symm.trans entry)
    have field' : t.find? _ = some (.cls c) := field
    rw [field'] at result
    obtain ⟨_, m₁, placed, result⟩ := bind_ok result
    obtain ⟨-, rfl⟩ := replace_ok placed
    have result : Machine.construct c count _ = .ok a m' := result
    have serves := construct_serves result tables (place.trans (Array.size_setIfInBounds ..).symm)
    exact serves
  | @initializer index count serial r t named receiver fields noField =>
    cases calls with
    | invoke =>
    obtain ⟨x, named', result⟩ := inspect_ok inferInstance result
    obtain ⟨rfl, -⟩ := name_ok (m := m.past f callers (.invoke index count)) rfl named'
    obtain ⟨u, looked, result⟩ := inspect_ok inferInstance result
    have there := peek_ok looked
    obtain rfl := Option.some.inj (receiver.symm.trans there)
    obtain ⟨field', found, result⟩ := inspect_ok inferInstance result
    obtain ⟨t', entry, rfl⟩ := field?_ok found
    obtain rfl := Option.some.inj (fields.symm.trans entry)
    have noField' : t.find? (f.closure.prototype.chunk.constantText index) = none := named ▸ noField
    rw [noField'] at result
    obtain ⟨t'', w, there, method, called⟩ := invokeFromClass_ok result
    have method : t''.find? "init" = some w := named ▸ method
    have same : m.stack.size - 1 - count.toNat = base := by omega
    have value : m.stack[base]? = some (.inst serial r) := same ▸ receiver
    have serves := call_serves called (tables t'' (Array.mem_of_getElem? there) w method) place value
    exact .inl serves
  | @superInitializer index count v named receiver =>
    cases calls with
    | superInvoke =>
    obtain ⟨x, named', result⟩ := inspect_ok inferInstance result
    obtain ⟨rfl, -⟩ := name_ok (m := m.past f callers (.superInvoke index count)) rfl named'
    obtain ⟨c, m₁, popped, result⟩ := bind_ok result
    obtain ⟨-, rfl⟩ := popClass_ok popped
    obtain ⟨t, w, there, method, called⟩ := invokeFromClass_ok result
    have method : t.find? "init" = some w := named ▸ method
    refine .inl (call_serves called (tables t (Array.mem_of_getElem? there) w method) ?_ ?_)
    · show base + count.toNat + 1 = m.stack.pop.size
      rw [Array.size_pop]
      omega
    · have same : m.stack.size - 1 - (count.toNat + 1) = base := by omega
      have value : m.stack[base]? = some v := same ▸ receiver
      show m.stack.pop[base]? = some v
      rw [Array.getElem?_pop, if_pos (by omega), value]
  | @boundInitializer count serial v w callee initializes =>
    cases calls with
    | call =>
    obtain ⟨u, looked, result⟩ := inspect_ok inferInstance result
    have there := peek_ok looked
    obtain rfl := Option.some.inj (callee.symm.trans there)
    obtain ⟨_, m₁, placed, result⟩ := bind_ok result
    obtain ⟨bound, rfl⟩ := replace_ok placed
    have bound : count.toNat < m.stack.size := bound
    refine .inl (call_serves result initializes (place.trans (Array.size_setIfInBounds ..).symm) ?_)
    have same : m.stack.size - 1 - count.toNat = base := by omega
    show (m.stack.setIfInBounds (m.stack.size - 1 - count.toNat) v)[base]? = some v
    rw [same]
    exact Array.getElem?_setIfInBounds_self_of_lt (by omega)

end Machine

namespace Session

variable {bare : Prop} {s s₁ s' : Session} {f : Frame} {callers rest : List Frame} {i : Instr} {v : Value} {base : Nat}

/-! ## Runs -/

/-- How a call may end for which the calls `rest` wait: it goes on forever, or at some step it fails, or else it
answers with a value.  A defect is the fault of a closure without code. -/
inductive Yields (bare : Prop) (s : Session) (base : Nat) (rest : List Frame) (v : Value) : Prop
  | forever (goesOn : ∀ k, ∃ s', s.advance (k + 1) = (none, s') ∧ rest.length < s'.machine.frames.length)
  | fails {k stop s'}
      (inside : ∀ j < k, ∃ s', s.advance (j + 1) = (none, s') ∧ rest.length < s'.machine.frames.length)
      (stops : s.advance (k + 1) = (some stop, s'))
      (failed : (∃ error, stop = .failed error) ∨ bare ∧ ∃ defect, stop = .broken defect)
  | answers {k s'}
      (inside : ∀ j < k, ∃ s', s.advance (j + 1) = (none, s') ∧ rest.length < s'.machine.frames.length)
      (goesOn : s.advance (k + 1) = (none, s')) (answers : s'.machine.Answers base rest v)

/-- After some steps the next one is made. -/
lemma advance_succ {k : Nat} (goesOn : s.advance k = (none, s₁)) : s.advance (k + 1) = s₁.advance 1 := by
  unfold advance at *
  rw [run_add]
  generalize s.machine.run (s.verbosity.wants .trace) k = result at goesOn
  obtain ⟨stop, m₁⟩ := result
  obtain ⟨rfl, rfl⟩ := Prod.mk.inj goesOn
  rfl

/-- Before a step the running call is at an instruction, unless its closure has no code. -/
lemma Reached.executes_or {m : Machine} (here : Reached (NativeBody.Fair bare) .running s)
    (journaled : Journaled s.machine m) : (∃ f callers i, m.Executes f callers i) ∨
      bare ∧ ∃ f callers defect, m.frames = f :: callers ∧ f.closure.Bare ∧ m.step = .error (.broken defect) m := by
  have ready := here.ready_step journaled
  obtain ⟨journal, rfl⟩ := journaled
  exact ready.executes_or here.waiting

lemma Reached.executes {m : Machine} (here : Reached (NativeBody.Fair bare) .running s)
    (journaled : Journaled s.machine m) (frames : m.frames = f :: callers)
    (decoded : f.closure.prototype.chunk.instrAt? f.ip = some i) (other : i ≠ .constant 0) :
    m.Executes f callers i := by
  rcases here.executes_or journaled with ⟨g, rest, j, executes⟩ | ⟨-, g, rest, -, calls, none, -⟩
  · obtain ⟨rfl, rfl⟩ := List.cons.inj (frames.symm.trans executes.frames)
    obtain rfl := Option.some.inj (decoded.symm.trans executes.decoded)
    exact executes
  · obtain ⟨rfl, rfl⟩ := List.cons.inj (frames.symm.trans calls)
    exact absurd (Option.some.inj (decoded.symm.trans (none.instrAt? f.ip))) other

/-- A step that stops the run returns from the script, or fails, or is the fault of a closure without code. -/
lemma Reached.stops {stop : Stop} (here : Reached (NativeBody.Fair bare) .running s)
    (stops : s.advance 1 = (some stop, s')) :
    (∃ f, s.machine.frames = [f] ∧ f.closure.prototype.chunk.instrAt? f.ip = some .ret) ∨
      (∃ error, stop = .failed error) ∨ bare ∧ ∃ defect, stop = .broken defect := by
  obtain ⟨m, journaled, step⟩ := advance_one_stops stops
  cases stop with
  | failed error => exact .inr (.inl ⟨error, rfl⟩)
  | broken defect =>
    have yields := step_yields (here.ready_step journaled) (journaled.keeps here.keeps).1
    rw [step] at yields
    exact .inr (.inr ⟨yields, defect, rfl⟩)
  | finished =>
    rcases here.executes_or journaled with ⟨f, callers, i, executes⟩ | ⟨-, f, callers, defect, -, -, breaks⟩
    · obtain ⟨rfl, rfl⟩ := executes.finishes step
      obtain ⟨journal, rfl⟩ := journaled
      exact .inl ⟨f, executes.frames, executes.decoded⟩
    · cases breaks.symm.trans step

/-- The next step in the middle of a call of an initializer. -/
lemma Reached.serves_step (here : Reached (NativeBody.Constructs bare) .running s)
    (serves : s.machine.Serves base rest v)
    (goesOn : s.advance 1 = (none, s')) : s'.machine.Serves base rest v ∨ s'.machine.Answers base rest v := by
  obtain ⟨m, journaled, step⟩ := advance_one goesOn
  have ordered : m.Ordered := (journaled.keeps here.keeps).1
  have respectful : m.Respectful := @Journaled.respects .running _ _ journaled here.respects
  rcases here.fair.executes_or journaled with ⟨f, callers, i, executes⟩ | ⟨-, f, callers, defect, -, -, breaks⟩
  · obtain ⟨journal, rfl⟩ := journaled
    have serves : { s.machine with journal }.Serves base rest v := serves
    exact serves.step respectful executes ordered step
  · cases breaks.symm.trans step

/-- Once an initializer has been called, it goes on forever, or fails, or answers with its slot zero. -/
lemma Reached.serves_yields (here : Reached (NativeBody.Constructs bare) .running s) (nonempty : rest ≠ [])
    (first : ∀ s', s.advance 1 = (none, s') → s'.machine.Serves base rest v ∨ s'.machine.Answers base rest v)
    (stops : ∀ stop s', s.advance 1 = (some stop, s') →
      (∃ error, stop = .failed error) ∨ bare ∧ ∃ defect, stop = .broken defect) : s.Yields bare base rest v := by
  let Stays (k : Nat) : Prop := ∃ s', s.advance (k + 1) = (none, s') ∧ s'.machine.Serves base rest v
  by_cases always : ∀ k, Stays k
  · exact .forever fun k => (always k).imp fun s' known => known.imp_right Serves.length
  -- The first step after which no call of an initializer is left.
  obtain ⟨k, leaves, before⟩ : ∃ k, ¬ Stays k ∧ ∀ j < k, Stays j := by
    classical
    have some : ∃ k, ¬ Stays k := not_forall.1 always
    exact ⟨Nat.find some, Nat.find_spec some, fun j below => not_not.1 (Nat.find_min some below)⟩
  have inside : ∀ j < k, ∃ s', s.advance (j + 1) = (none, s') ∧ rest.length < s'.machine.frames.length :=
    fun j below => (before j below).imp fun s' known => known.imp_right Serves.length
  have last : (∀ s', s.advance (k + 1) = (none, s') → s'.machine.Serves base rest v ∨ s'.machine.Answers base rest v) ∧
      ∀ stop s', s.advance (k + 1) = (some stop, s') →
        (∃ error, stop = .failed error) ∨ bare ∧ ∃ defect, stop = .broken defect := by
    cases k with
    | zero => exact ⟨first, stops⟩
    | succ k =>
      obtain ⟨s₁, goesOn, serves⟩ := before k (Nat.lt_succ_self k)
      have there := here.turn (.advance goesOn)
      rw [advance_succ goesOn]
      refine ⟨fun s' => there.serves_step serves, fun stop s' stops => (there.fair.stops stops).resolve_left ?_⟩
      rintro ⟨f, alone, -⟩
      have deep := serves.length
      rw [alone, List.length_singleton, Nat.lt_one_iff, List.length_eq_zero_iff] at deep
      exact nonempty deep
  cases result : s.advance (k + 1) with
  | mk stop s' =>
    cases stop with
    | none =>
      rcases last.1 s' result with serves | answers
      · exact absurd ⟨s', result, serves⟩ leaves
      · exact .answers inside result answers
    | some stop => exact .fails inside result (last.2 stop s' result)

/-- A call that has come back has answered. -/
lemma Yields.returns {bare : Prop} {n : Nat} (yields : s.Yields bare base rest v)
    (goesOn : s.advance (n + 1) = (none, s₁))
    (back : s₁.machine.frames.length ≤ rest.length) :
    ∃ k s', s.advance (k + 1) = (none, s') ∧ s'.machine.Answers base rest v := by
  -- Up to there, the call has been over at some step.
  have ended : ∀ {k}, (∀ j < k, ∃ s', s.advance (j + 1) = (none, s') ∧ rest.length < s'.machine.frames.length) →
      k ≤ n := by
    intro k inside
    refine Nat.le_of_not_lt fun before => ?_
    obtain ⟨s', same, deep⟩ := inside n before
    obtain rfl := (Prod.mk.inj (same.symm.trans goesOn)).2
    exact Nat.not_lt_of_le back deep
  cases yields with
  | forever goesOn' => exact absurd (ended (k := n + 1) fun j _ => goesOn' j) (Nat.not_succ_le_self n)
  | @fails k stop s' inside stops _ =>
    obtain ⟨m, rfl⟩ := Nat.exists_eq_add_of_le (ended inside)
    rw [Nat.add_right_comm] at goesOn
    obtain ⟨s₂, before, -⟩ := advance_add goesOn
    cases before.symm.trans stops
  | @answers k s' inside goesOn' answers => exact ⟨k, s', goesOn', answers⟩

/-- A class that is called, directly or in a field, fails, or goes on forever, or leaves the next instance in the
place of the callee and nothing above it, with the calls around it as they were; and so does an initializer that
is called as a method of an instance, or of a superclass, with the instance that it is called on.  The next
instance is none that there is. -/
theorem call_constructs (here : Reached (NativeBody.Constructs bare) .running s)
    (frames : s.machine.frames = f :: callers)
    (decoded : f.closure.prototype.chunk.instrAt? f.ip = some i) (due : s.machine.Due f.closure.prototype i v) :
    (∃ base taken, i.Calls taken ∧ base + taken = s.machine.stack.size ∧
      s.Yields bare base ({ f with ip := f.ip + i.size } :: callers) v) ∧
      ∀ u r, s.machine.Stores u → u ≠ .inst s.machine.fields.size r := by
  obtain ⟨taken, calls⟩ := due.calls
  have other : i ≠ .constant 0 := by
    rintro rfl
    cases calls
  have place : s.machine.stack.size - taken + taken = s.machine.stack.size :=
    Nat.sub_add_cancel ((here.fair.executes (.refl _) frames decoded other).calls_le calls)
  refine ⟨⟨_, taken, calls, place, ?_⟩, fun u r stores same => ?_⟩
  · refine here.serves_yields (List.cons_ne_nil _ _) (fun s' goesOn => ?_) fun stop s' stops => ?_
    · obtain ⟨-, m, journaled, result⟩ := advance_executes here.fair frames decoded goesOn
      have respectful : m.Respectful := @Journaled.respects .running _ _ journaled here.respects
      obtain ⟨journal, rfl⟩ := journaled
      exact (due.aside journal).serves respectful.classes.tables calls place result
    · refine (here.fair.stops stops).resolve_left ?_
      rintro ⟨g, alone, returns⟩
      obtain ⟨rfl, -⟩ := List.cons.inj (frames.symm.trans alone)
      obtain rfl := Option.some.inj (decoded.symm.trans returns)
      cases calls
  · -- The fields of all instances that there are have a place in the list.
    obtain ⟨c, S, memory⟩ := here.fair.intact
    have sound := memory.stores stores
    rw [same] at sound
    exact Nat.lt_irrefl _ (memory.objects.instances ▸ sound.1)

/-- A class with an initializer that returns early, which leaves the new instance. -/
theorem call_constructs_early : ∃ s f c k s', Reached (NativeBody.Constructs False) .running s ∧
    s.machine.frames = [f] ∧
    f.closure.prototype.chunk.instrAt? f.ip = some (.call 1) ∧ s.machine.top? 1 = some (.cls c) ∧
    s.advance (k + 1) = (none, s') ∧ s'.machine.Answers 1 [{ f with ip := f.ip + 2 }] (.inst 0 c) := by
  obtain ⟨s, here, one, next, callee, size, none, returns, back⟩ := (Reached.start .quiet).exists_midway
    (P := fun s => s.machine.frames.length = 1 ∧
      (s.machine.frames.head?.bind fun f => f.closure.prototype.chunk.instrAt? f.ip) = some (.call 1) ∧
      (s.machine.top? 1).map (·.same (.cls ⟨0, "A"⟩)) = some true ∧ s.machine.stack.size = 3 ∧
      s.machine.fields.size = 0 ∧ (s.advance 6).1 = none ∧ (s.advance 6).2.machine.frames.length = 1)
    (show ((start .quiet).midway "class A \x7b init(n) \x7b if (n) return; this.x = n; \x7d \x7d A(true);" 8).any _ =
      true by decide +kernel)
  obtain ⟨c, callee⟩ := exists_class callee
  obtain ⟨f, frames⟩ := List.length_eq_one_iff.1 one
  rw [frames] at next
  obtain ⟨⟨base, taken, calls, place, yields⟩, -⟩ := call_constructs here frames next (.construct callee)
  cases calls with
  | call =>
    obtain rfl : base = 1 := Nat.add_right_cancel (place.trans size)
    rw [none] at yields
    obtain ⟨k, s', goesOn, answers⟩ := yields.returns (n := 5) (Prod.ext returns rfl) (Nat.le_of_eq back)
    exact ⟨s, f, c, k, s', here, frames, next, callee, goesOn, answers⟩

/-- A function of the host that makes a class with a function for an initializer. -/
def handOutClass : NativeBody := fun host _ =>
  let p := Prototype.ofCode 0 #[] (#[Opcode.nil, .ret].map Opcode.toByte) host.nextPrototype
  let methods := Table.empty.insert "init" ⟨host.nextClosure, p, #[]⟩
  .ok (.objects { NewObjects.none with closures := #[(p, #[])], methods := #[methods], prototypes := 1 }
    (.cls ⟨host.methods.size, "K"⟩))

/-- With functions of the host that make any classes, one that is called may leave nil. -/
theorem made_class_misinitializes : ∃ s f c s', Reached (fun _ => True) .running s ∧ s.machine.frames = [f] ∧
    f.closure.prototype.chunk.instrAt? f.ip = some (.call 0) ∧ s.machine.top? 0 = some (.cls c) ∧
    s.advance 3 = (none, s') ∧ s'.machine.frames.length = 1 ∧ s'.machine.stack.size = s.machine.stack.size ∧
    s'.machine.top? 0 = some .nil := by
  obtain ⟨s, here, one, next, callee, goesOn, back, size, given⟩ := exists_hosting
    (P := fun s => s.machine.frames.length = 1 ∧
      (s.machine.frames.head?.bind fun f => f.closure.prototype.chunk.instrAt? f.ip) = some (.call 0) ∧
      (s.machine.top? 0).map (·.same (.cls ⟨0, "K"⟩)) = some true ∧ (s.advance 3).1 = none ∧
      (s.advance 3).2.machine.frames.length = 1 ∧ (s.advance 3).2.machine.stack.size = s.machine.stack.size ∧
      ((s.advance 3).2.machine.top? 0).map (·.same .nil) = some true)
    (show ((hosting handOutClass).midway "make()();" 2).any _ = true by decide +kernel)
  obtain ⟨f, frames⟩ := List.length_eq_one_iff.1 one
  rw [frames] at next
  obtain ⟨c, callee⟩ := exists_class callee
  refine ⟨s, f, c, _, here, frames, next, callee, Prod.ext goesOn rfl, back, size, ?_⟩
  obtain ⟨v, top, same⟩ := Option.map_eq_some_iff.1 given
  cases v with
  | nil => exact top
  | _ => cases same

end Session

end Lox
