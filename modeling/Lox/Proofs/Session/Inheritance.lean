import Lox.Proofs.Machine.Classes
import Lox.Proofs.Session.Closing
import Lox.Proofs.Session.Invocation

/-!
# Inheritance

A session is followed step by step (`Recounts`), and what its steps do to classes is its history.  The
methods of a class are copied when it inherits, and yet they are at all times those that the chain of its
superclasses gives; they do not change once the class is declared; and `super` leads to the class that the
class of the method has inherited from (`classes_inherit`).  All this counts on the compiler, which makes
methods in declarations of classes only (`made_closure_patches`).
-/

namespace Lox

open Compile Machine

/-! ## At rest -/

section Settled

variable {old : Array (Table Closure)} {base h : History} {m m' : Machine}

lemma Settled.of_same (settled : Settled old base h m) (stack : m'.stack = m.stack) (globals : m'.globals = m.globals)
    (fields : m'.fields = m.fields) (methods : m'.methods = m.methods) (cells : m'.cells = m.cells)
    (natives : m'.natives = m.natives) (hostCalls : m'.hostCalls = m.hostCalls) : Settled old base h m' := by
  obtain ⟨⟨l, unhidden, account⟩, kept, since⟩ := settled
  exact account.settled unhidden kept since
    (account.covers.of_same stack globals fields methods cells natives hostCalls) methods

/-- A run is given up. -/
lemma Settled.reset (settled : Settled old base h m) (closes : (m.partCells 0 m.openCells).isSome) :
    Settled old base h m.reset := by
  obtain ⟨⟨l, unhidden, account⟩, kept, since⟩ := settled
  obtain ⟨⟨closing, openCells⟩, parts⟩ := Option.isSome_iff_exists.1 closes
  have covers := (account.covers.close parts).setStack #[] (fun v there => (Array.not_mem_empty v there).elim)
    fun alive => Ledger.nowhere unhidden alive
  refine account.settled unhidden kept since (covers.of_same rfl rfl rfl rfl ?_ rfl rfl) rfl
  unfold Machine.reset
  rw [parts]
  rfl

/-- A function of the host becomes a global. -/
lemma Settled.defineNative (settled : Settled old base h m) (name : String) (arity : UInt8) {body : NativeBody}
    (fair : body.Fair True) (strings : StringTable) :
    Settled old base h { m with
      strings, natives := m.natives.push body,
      globals := m.globals.insert name (.native ⟨m.natives.size, name, arity⟩) } := by
  obtain ⟨⟨l, unhidden, account⟩, kept, since⟩ := settled
  have named := account.covers.setGlobal name (v := .native ⟨m.natives.size, name, arity⟩) trivial
  have makes : body.Makes fun p => ∀ serial, Closure.Good l.supers ⟨serial, p, #[]⟩ :=
    NativeBody.Makes.mono fair fun _ => Closure.good_of_standalone
  exact account.settled unhidden kept since { named with natives := (named.toHolds.newNative makes).natives } rfl

/-- A script is called. -/
lemma Settled.loaded (settled : Settled old base h m) (idle : m.Idle) {p : Prototype} {Γ : Context} {start : List Local}
    {items : List Item} (compiled : Compiled p Γ start items) (script : Γ.around = []) (strings : StringTable)
    (nextPrototype : Nat) : Followed old base h (Session.loaded m p strings nextPrototype) := by
  obtain ⟨⟨l, unhidden, account⟩, kept, since⟩ := settled
  have good : Closure.Good l.supers ⟨m.nextClosure, p, #[]⟩ :=
    .inr ⟨Γ, start, items, compiled, fun x index cell captured => by
      rw [script] at captured
      cases captured⟩
  have covers : l.Covers (Session.loaded m p strings nextPrototype) :=
    (account.covers.push (v := .closure ⟨m.nextClosure, p, #[]⟩) good).of_same rfl rfl rfl rfl rfl rfl rfl
  have outside : Outside old base _ (Session.loaded m p strings nextPrototype) :=
    account.outside unhidden kept since (.refl l) covers fun f there => by
      rw [Session.loaded, idle.frames] at there
      obtain rfl := List.mem_singleton.1 there
      exact good.between _
  have nothing : m.founded? (Session.loaded m p strings nextPrototype) = none := founded?_same rfl
  rw [nothing] at outside
  exact outside.followed ⟨⟨m.nextClosure, p, #[]⟩, 0, 0⟩

end Settled

/-- The tables are as the history tells, at rest and in a run. -/
def Phase.Told (old : Array (Table Closure)) (base : History) : Phase → History → Machine → Prop
  | .resting => Settled old base
  | .running => Followed old base

/-! ## Looking up a superclass's method -/

/-- What is left to be done when a method of a superclass is looked up in a class. -/
def Instr.superLookup? (p : Prototype) : Instr → Option (ClassRef → Action Unit)
  | .getSuper index => some fun r => bindMethod r (p.chunk.constantText index)
  | .superInvoke index count => some fun r => invokeFromClass r (p.chunk.constantText index) count
  | _ => none

lemma popClass_apply {m : Machine} {r : ClassRef} (top : m.top? 0 = some (.cls r)) :
    popClass m = .ok r { m with stack := m.stack.pop } := by
  have back : m.stack.back? = some (.cls r) := top
  have popped : pop m = .ok (.cls r) { m with stack := m.stack.pop } := by
    unfold pop
    split
    · next found => rw [Option.some.inj (found.symm.trans back)]
    · next missing => simp [missing] at back
  rw [popClass, bind_apply, popped]
  rfl

/-- The class on top of the stack is the one that the method is looked up in. -/
lemma Machine.Ready.looksUp {m : Machine} {f : Frame} {callers : List Frame} {i : Instr} {r : ClassRef}
    {look : ClassRef → Action Unit} (ready : Ready True m) (frames : m.frames = f :: callers)
    (decoded : f.closure.prototype.chunk.instrAt? f.ip = some i)
    (looks : i.superLookup? f.closure.prototype = some look)
    (top : m.top? 0 = some (.cls r)) : m.step = look r { m.past f callers i with stack := m.stack.pop } := by
  have popped : popClass (m.past f callers i) = .ok r { m.past f callers i with stack := m.stack.pop } :=
    popClass_apply top
  have text : ∀ {index x}, name index (m.past f callers i) = .ok x (m.past f callers i) →
      name index (m.past f callers i) = .ok (f.closure.prototype.chunk.constantText index) (m.past f callers i) := by
    intro index x named
    rwa [(name_ok (f := { f with ip := f.ip + i.size }) rfl named).1] at named
  rcases ready with ⟨c, T, E, f', callers', below, σ, shape, active⟩ | ⟨-, c, S, f', callers', frames', bare, -⟩
  · obtain ⟨rfl, rfl⟩ := List.cons.inj (frames.symm.trans active.frames)
    obtain ⟨j, decoded', bound, flows⟩ := active.calls.fits.flows _ _ shape
    obtain rfl := Option.some.inj (decoded.symm.trans decoded')
    rw [step, bind_of_ok (fetch_apply frames decoded bound)]
    cases i with
    | getSuper index =>
      obtain rfl := Option.some.inj looks
      obtain ⟨τ, execs, -⟩ := flows
      cases execs with
      | getSuper constant => rw [exec, bind_of_ok (text (active.named constant _)), bind_of_ok popped]
      | literal kind | binary kind | unary kind => cases kind
    | superInvoke index count =>
      obtain rfl := Option.some.inj looks
      obtain ⟨τ, execs, -⟩ := flows
      cases execs with
      | superInvoke constant => rw [exec, bind_of_ok (text (active.named constant _)), bind_of_ok popped]
      | literal kind | binary kind | unary kind => cases kind
    | _ => cases looks
  · obtain ⟨rfl, -⟩ := List.cons.inj (frames.symm.trans frames')
    obtain rfl := Option.some.inj (decoded.symm.trans (bare.instrAt? _))
    cases looks

namespace Session

/-! ## Histories -/

/-- From a state with a history, what a session comes to turn by turn and step by step, with its history. -/
inductive Recounts (Admitted : NativeBody → Prop) (phase : Phase) (s : Session) (h : History) :
    Phase → Session → History → Prop where
  | refl : Recounts Admitted phase s h phase s h
  /-- Without steps nothing happens to classes. -/
  | rest {s' h' phase'' s''} (before : Recounts Admitted phase s h .resting s' h')
      (turn : Turn Admitted .resting s' phase'' s'') : Recounts Admitted phase s h phase'' s'' h'
  | step {s' h' s''} (before : Recounts Admitted phase s h .running s' h') (goesOn : s'.advance 1 = (none, s'')) :
      Recounts Admitted phase s h .running s'' ((s'.machine.happening? s''.machine).toList ++ h')
  | stop {s' h' s₁ s'' stop outcome} (before : Recounts Admitted phase s h .running s' h')
      (stops : s'.advance 1 = (some stop, s₁)) (finishes : s₁.finish stop = (outcome, s''))
      (sound : ∀ defect, outcome ≠ .defect defect) : Recounts Admitted phase s h .resting s'' h'
  | time {s' h'} (before : Recounts Admitted phase s h .running s' h') (now : Float) :
      Recounts Admitted phase s h .running (s'.atTime now) h'
  | journal {s' h'} (before : Recounts Admitted phase s h .running s' h') :
      Recounts Admitted phase s h .running s'.takeJournal.2 h'

/-- A state of a session with its history from the start on. -/
def Chronicle (Admitted : NativeBody → Prop) (phase : Phase) (s : Session) (h : History) : Prop :=
  ∃ verbosity, Recounts Admitted .resting (start verbosity) [] phase s h

variable {Admitted : NativeBody → Prop} {phase phase' phase'' : Phase} {s s' s'' : Session} {h h' h'' : History}

lemma Recounts.leads (recounts : Recounts Admitted phase s h phase' s' h') : Leads Admitted phase s phase' s' := by
  induction recounts with
  | refl => exact .refl
  | rest _ turn ih => exact ih.turn turn
  | step _ goesOn ih => exact ih.turn (.advance goesOn)
  | stop _ stops finishes sound ih => exact ih.turn (.finish stops finishes sound)
  | time _ now ih => exact ih.turn (.time now)
  | journal _ ih => exact ih.turn .journal

/-- What happens to classes in the next steps of a run, the last first. -/
def happenings (s : Session) : Nat → History
  | 0 => []
  | k + 1 => ((s.after k).happening? (s.after (k + 1))).toList ++ s.happenings k

lemma Recounts.advance {k : Nat} (recounts : Recounts Admitted phase s h .running s' h')
    (goesOn : s'.advance k = (none, s'')) : Recounts Admitted phase s h .running s'' (s'.happenings k ++ h') := by
  induction k generalizing s'' with
  | zero =>
    obtain ⟨-, rfl⟩ := Prod.mk.inj goesOn
    exact recounts
  | succ k ih =>
    obtain ⟨s₁, first, last⟩ := advance_add goesOn
    have before : s'.after k = s₁.machine := congrArg (·.2.machine) first
    have after : s'.after (k + 1) = s''.machine := congrArg (·.2.machine) goesOn
    rw [happenings, before, after, List.append_assoc]
    exact (ih first).step last

/-- Every state that a session comes to has a history. -/
theorem Leads.recounts (leads : Leads Admitted phase s phase' s') (h : History) :
    ∃ h', Recounts Admitted phase s h phase' s' h' := by
  induction leads with
  | refl => exact ⟨h, .refl⟩
  | @turn phase₁ _ _ _ _ turn ih =>
    obtain ⟨h', before⟩ := ih
    cases turn with
    | native admitted => exact ⟨h', before.rest (.native admitted)⟩
    | reject rejects => exact ⟨h', before.rest (.reject rejects)⟩
    | load loads => exact ⟨h', before.rest (.load loads)⟩
    | advance goesOn => exact ⟨_, before.advance goesOn⟩
    | finish stops finishes sound =>
      obtain ⟨j, s₃, goesOn, last⟩ := advance_last stops
      exact ⟨_, (before.advance goesOn).stop last finishes sound⟩
    | time now =>
      cases phase₁ with
      | resting => exact ⟨h', before.rest (.time now)⟩
      | running => exact ⟨h', before.time now⟩
    | journal =>
      cases phase₁ with
      | resting => exact ⟨h', before.rest .journal⟩
      | running => exact ⟨h', before.journal⟩

lemma Chronicle.reached (chronicle : Chronicle Admitted phase s h) : Reached Admitted phase s := by
  obtain ⟨verbosity, recounts⟩ := chronicle
  exact ⟨verbosity, recounts.leads⟩

lemma Reached.chronicle (here : Reached Admitted phase s) : ∃ h, Chronicle Admitted phase s h := by
  obtain ⟨verbosity, leads⟩ := here
  obtain ⟨h, recounts⟩ := leads.recounts []
  exact ⟨h, verbosity, recounts⟩

/-! ## The tables at all times -/

variable {old : Array (Table Closure)} {base : History}

lemma Journaled.settled {m m' : Machine} (journaled : Journaled m m') (settled : Settled old base h m) :
    Settled old base h m' := by
  obtain ⟨journal, rfl⟩ := journaled
  exact settled_timeless journal m.now settled

lemma Journaled.followed {m m' : Machine} (journaled : Journaled m m') (followed : Followed old base h m) :
    Followed old base h m' := by
  obtain ⟨journal, rfl⟩ := journaled
  exact Followed.timeless journal m.now followed

/-- The last step of a run. -/
lemma finish_settled {stop : Stop} {outcome : Outcome}
    (stops : s.advance 1 = (some stop, s')) (finishes : s'.finish stop = (outcome, s''))
    (sound : ∀ defect, outcome ≠ .defect defect)
    (fallen : ∀ {m}, Journaled s.machine m → m.step = .error stop s'.machine → (∀ defect, stop ≠ .broken defect) →
      Settled old base h s'.machine) : Settled old base h s''.machine := by
  obtain ⟨m, journaled, step⟩ := advance_one_stops stops
  rcases finish_machine finishes sound with ⟨rfl, -, told⟩ | ⟨error, m', rfl, -, told, closes, given_up⟩
  · exact told.settled (fallen journaled step nofun)
  · rw [given_up]
    exact Settled.reset (told.settled (fallen journaled step nofun)) closes

/-- From a state on, what is told stays told. -/
theorem Recounts.told (recounts : Recounts (NativeBody.Fair True) phase s h phase' s' h')
    (here : Reached (NativeBody.Fair True) phase s) (told : phase.Told old base h s.machine) :
    phase'.Told old base h' s'.machine := by
  induction recounts with
  | refl => exact told
  | @rest s₁ h₁ phase₂ s₂ before turn ih =>
    have there : Reached (NativeBody.Fair True) .resting s₁ := here.leads before.leads
    have settled : Settled old base h₁ s₁.machine := ih
    cases turn with
    | native admitted =>
      exact (note_journaled _ _ _).settled (settled.defineNative _ _ admitted _)
    | reject rejects =>
      obtain ⟨strings, journaled⟩ := load_rejects rejects
      exact journaled.settled (settled.of_same rfl rfl rfl rfl rfl rfl rfl)
    | load loads =>
      have idle : s₁.machine.Idle := there.keeps
      obtain ⟨p, strings, nextPrototype, compiles, journaled⟩ := load_idle loads idle
      obtain ⟨Γ, v, items, script, compiled⟩ := compile_compiled compiles
      exact journaled.followed (settled.loaded idle compiled script strings nextPrototype)
    | time now => exact settled_timeless _ now settled
    | journal => exact settled_timeless #[] _ settled
  | @step s₁ h₁ s₂ before goesOn ih =>
    have there : Reached (NativeBody.Fair True) .running s₁ := here.leads before.leads
    obtain ⟨m, journaled, step⟩ := advance_one goesOn
    have followed : Followed old base h₁ m := journaled.followed ih
    have ready := there.ready_step journaled
    obtain ⟨journal, rfl⟩ := journaled
    exact followed.step ready (there.ordered.of_same rfl rfl) step
  | @stop s₁ h₁ s₂ s₃ stop outcome before stops finishes sound ih =>
    have there : Reached (NativeBody.Fair True) .running s₁ := here.leads before.leads
    refine finish_settled stops finishes sound fun {m} journaled step whole => ?_
    have followed : Followed old base h₁ m := journaled.followed ih
    have ready := there.ready_step journaled
    obtain ⟨journal, rfl⟩ := journaled
    exact followed.stops ready (there.ordered.of_same rfl rfl) step whole
  | time _ now ih => exact Followed.timeless _ now ih
  | journal _ ih => exact Followed.timeless #[] _ ih

lemma start_told (verbosity : Verbosity) : Phase.resting.Told #[] [] [] (start verbosity).machine := by
  have covers : Ledger.Covers ⟨[], none, #[]⟩ Machine.empty := {
    toHolds := holds_empty _
    tables := .refl _
    count := rfl
    closed := fun there => nomatch there
    opened := fun there => nomatch there
    hidden := fun alive => nomatch alive }
  have account : Ledger.Account ⟨[], none, #[]⟩ [] Machine.empty :=
    ⟨covers, rfl, List.forall_mem_nil _, fun there => (nomatch there), fun belongs => belongs.elim⟩
  have settled : Settled #[] [] [] Machine.empty := ⟨⟨_, rfl, account⟩, fun _ below => (nomatch below), .refl _ _⟩
  exact (note_journaled _ _ _).settled (settled.defineNative _ 0 clock_makes _)

lemma Chronicle.told (chronicle : Chronicle (NativeBody.Fair True) phase s h) : phase.Told #[] [] h s.machine := by
  obtain ⟨verbosity, recounts⟩ := chronicle
  exact recounts.told (.start verbosity) (start_told verbosity)

/-- What the next step of a run finds. -/
lemma Chronicle.followed (chronicle : Chronicle (NativeBody.Fair True) .running s h) :
    Followed #[] [] h s.machine ∧ Ready True s.machine ∧ s.machine.Ordered :=
  ⟨chronicle.told, chronicle.reached.fit, chronicle.reached.ordered⟩

/-! ## Declarations -/

/-- From a state of a run with a history, so many steps lead to another one. -/
inductive Ahead (s : Session) (h : History) : Nat → Session → History → Prop where
  | here : Ahead s h 0 s h
  | step {n s' h' s''} (before : Ahead s h n s' h') (goesOn : s'.advance 1 = (none, s'')) :
      Ahead s h (n + 1) s'' ((s'.machine.happening? s''.machine).toList ++ h')
  | time {n s' h'} (before : Ahead s h n s' h') (now : Float) : Ahead s h n (s'.atTime now) h'
  | journal {n s' h'} (before : Ahead s h n s' h') : Ahead s h n s'.takeJournal.2 h'

lemma Ahead.recounts {n : Nat} (ahead : Ahead s h n s' h') : Recounts Admitted .running s h .running s' h' := by
  induction ahead with
  | here => exact .refl
  | step _ goesOn ih => exact ih.step goesOn
  | time _ now ih => exact ih.time now
  | journal _ ih => exact ih.journal

section Ahead

variable {f : Frame} {callers : List Frame} {I Q F : History → Machine → Prop} {is : List Instr} {o n : Nat}

/-- Steps go through what there is to be gone through. -/
lemma Ahead.through (ahead : Ahead s h n s' h') (asideI : Timeless I) (asideQ : Timeless Q)
    (through : Through f callers I Q F is o h s.machine) (bound : n ≤ is.length) :
    Through f callers I Q F (is.drop n) (o + codeSize (is.take n)) h' s'.machine := by
  induction ahead with
  | here => exact through
  | @step n s₁ h₁ s₂ before goesOn ih =>
    have there := ih (Nat.le_of_succ_le bound)
    rw [List.drop_eq_getElem_cons bound] at there
    obtain ⟨-, -, -, further⟩ := there
    obtain ⟨m, journaled, step⟩ := advance_one goesOn
    obtain ⟨journal, rfl⟩ := journaled
    have size : codeSize (is.take (n + 1)) = codeSize (is.take n) + is[n].size := by
      rw [List.take_succ_eq_append_getElem bound, codeSize_append, codeSize_cons, codeSize_nil, Nat.add_zero]
    rw [size, ← Nat.add_assoc]
    exact (further journal s₁.machine.now).1 _ step
  | time _ now ih => exact (ih bound).aside asideI asideQ _ now
  | journal _ ih => exact (ih bound).aside asideI asideQ #[] _

end Ahead

/-- From a state with a history on, nothing changes of a class. -/
def Fixed (phase : Phase) (s : Session) (h : History) (k : Nat) : Prop :=
  ∀ phase' s' h', Recounts (NativeBody.Fair True) phase s h phase' s' h' →
    s'.machine.methods[k]? = s.machine.methods[k]? ∧ h'.superclass? k = h.superclass? k ∧
      ∀ x, h'.own? k x = h.own? k x

/-- What comes of a class that is made next. -/
structure Declares (s : Session) (h : History) (f : Frame) (callers : List Frame) (d : ClassCode) : Prop where
  code : f.closure.prototype.CodeAt f.ip d.instrs
  /-- Nothing has happened to the class. -/
  fresh : h.superclass? (d.made f s.machine).serial = none ∧ ∀ x, h.own? (d.made f s.machine).serial x = none
  /-- When the call has gone through the code, the class has inherited and got its methods one after the other. -/
  completes : ∀ s' h', Ahead s h d.instrs.length s' h' →
    s'.machine.frames = { f with ip := f.ip + codeSize d.instrs } :: callers ∧
      (∃ own inherited, h' = own.reverse ++ (inherited ++ h) ∧
        List.Forall₂ (MethodCode.Defines f (d.made f s.machine)) d.methods own ∧
        d.Inherits (d.made f s.machine) inherited) ∧
      Fixed .running s' h' (d.made f s.machine).serial
  /-- When the run stops before, the class has no methods. -/
  aborts : ∀ n s' h' stop s₁ outcome s'', Ahead s h n s' h' → n < d.instrs.length →
    s'.advance 1 = (some stop, s₁) → s₁.finish stop = (outcome, s'') → (∀ defect, outcome ≠ .defect defect) →
      s''.machine.methods[(d.made f s.machine).serial]? = some .empty ∧
        Fixed .resting s'' h' (d.made f s.machine).serial

/-- What is told of a state is that the tables are as the history says. -/
lemma Reached.tells (here : Reached (NativeBody.Fair True) phase s) (told : phase.Told old base h s.machine) :
    (∃ l : Ledger, l.Account h s.machine) ∧ Kept old s.machine ∧ base.Since old.size h := by
  cases phase with
  | resting =>
    obtain ⟨⟨l, -, account⟩, kept, since⟩ := (told : Settled old base h s.machine)
    exact ⟨⟨l, account⟩, kept, since⟩
  | running =>
    have midway := Followed.midway told here.fit here.ordered
    exact ⟨midway.account, midway.kept, midway.since⟩

/-- Nothing changes of the classes that there are when what is told starts anew. -/
lemma Reached.fixed (here : Reached (NativeBody.Fair True) phase s) {k : Nat}
    (told : phase.Told s.machine.methods h h s.machine) (below : k < s.machine.methods.size) : Fixed phase s h k := by
  intro phase' s' h' recounts
  obtain ⟨-, kept, since⟩ := (here.leads recounts.leads).tells (recounts.told here told)
  exact ⟨kept k below, since.same below⟩

/-- When a run stops in a declaration, the class has no methods. -/
lemma Reached.aborted (here : Reached (NativeBody.Fair True) .running s) {stop : Stop} {outcome : Outcome}
    {c : ClassRef}
    {h₀ : History} {m₀ : Machine} (stops : s.advance 1 = (some stop, s')) (finishes : s'.finish stop = (outcome, s''))
    (sound : ∀ defect, outcome ≠ .defect defect)
    (fallen : ∀ {m}, Journaled s.machine m → m.step = .error stop s'.machine → (∀ defect, stop ≠ .broken defect) →
      Abandoned h₀ m₀ c h s'.machine) :
    s''.machine.methods[c.serial]? = some .empty ∧ Fixed .resting s'' h c.serial := by
  have there := here.turn (.finish stops finishes sound)
  obtain ⟨m, journaled, step⟩ := advance_one_stops stops
  have whole : ∀ defect, stop ≠ .broken defect := by
    rintro defect rfl
    exact sound defect (Prod.mk.inj finishes).1.symm
  obtain ⟨-, account, -, empty⟩ := fallen journaled step whole
  have settled : Settled s'.machine.methods h h s''.machine := finish_settled stops finishes sound fun _ _ _ =>
    ⟨account, .refl _, .refl _ _⟩
  have below : c.serial < s'.machine.methods.size := (Array.getElem?_eq_some_iff.1 empty).1
  have now : s''.machine.methods[c.serial]? = some .empty := (settled.kept _ below).trans empty
  obtain ⟨l, unhidden, account⟩ := settled.account
  have again : Phase.resting.Told s''.machine.methods h h s''.machine := ⟨⟨l, unhidden, account⟩, .refl _, .refl _ _⟩
  exact ⟨now, there.fixed again (Array.getElem?_eq_some_iff.1 now).1⟩

/-- Where a class is made, it is declared. -/
theorem Chronicle.declares {f : Frame} {callers : List Frame} {index : UInt8}
    (chronicle : Chronicle (NativeBody.Fair True) .running s h) (frames : s.machine.frames = f :: callers)
    (decoded : f.closure.prototype.chunk.instrAt? f.ip = some (.makeClass index)) :
    ∃ d, Declares s h f callers d := by
  obtain ⟨followed, ready, ordered⟩ := chronicle.followed
  have here := chronicle.reached
  obtain ⟨l, d, code, through⟩ := followed.declares ready ordered frames decoded
  have asideQ : Timeless fun h' m' =>
      Declared l h s.machine f callers d (f.ip + codeSize d.instrs) h' m' ∧ Outside s.machine.methods h h' m' :=
    fun journal now ⟨declared, outside⟩ => ⟨declared_timeless journal now declared,
      outside_timeless journal now outside⟩
  obtain ⟨⟨l₀, account⟩, -⟩ := (followed.midway ready ordered)
  refine ⟨d, code, ?_, ?_, ?_⟩
  · refine ⟨Option.eq_none_iff_forall_ne_some.2 fun r superclass => ?_,
      fun x => Option.eq_none_iff_forall_ne_some.2 fun w own => ?_⟩
    · exact Nat.lt_irrefl _ (account.within.superclass superclass).1
    · exact Nat.lt_irrefl _ (account.within.own own)
  · intro s' h' ahead
    have there := here.leads (ahead.recounts.leads)
    have done := ahead.through midway_timeless asideQ through (Nat.le_refl _)
    rw [List.drop_length, List.take_length] at done
    obtain ⟨⟨frames', own, inherited, complete, defines, inherits⟩, outside⟩ := done
    refine ⟨frames', ⟨own, inherited, complete.history, defines, inherits⟩, ?_⟩
    have again : Outside s'.machine.methods h' h' s'.machine := ⟨outside.account, .refl _, .refl _ _⟩
    have told : Phase.running.Told s'.machine.methods h' h' s'.machine := again.followed f
    refine there.fixed told ?_
    rw [complete.size]
    exact Nat.lt_succ_self _
  · intro n s' h' stop s₁ outcome s'' ahead bound stops finishes sound
    have rest := ahead.through midway_timeless asideQ through bound.le
    rw [List.drop_eq_getElem_cons bound] at rest
    obtain ⟨-, -, -, further⟩ := rest
    have fallen : ∀ {m}, Journaled s'.machine m → m.step = .error stop s₁.machine → (∀ defect, stop ≠ .broken defect) →
        Abandoned h s.machine (d.made f s.machine) h' s₁.machine := by
      rintro m ⟨journal, rfl⟩ step whole
      exact (further journal s'.machine.now).2 stop _ step whole
    exact (here.leads ahead.recounts.leads).aborted stops finishes sound fallen

/-- In every state, what is found in a class is what the chain of its superclasses gives, where each class has
the superclass that it inherited from; where a class is made, its declaration gives it methods, and then it
never changes; and a method of a class looks `super` up in the class that its class inherited from. -/
theorem classes_inherit (here : Reached (NativeBody.Fair True) phase s) :
    (∃ h, Chronicle (NativeBody.Fair True) phase s h) ∧
      ∀ h, Chronicle (NativeBody.Fair True) phase s h →
        (∀ (k : Nat) t, s.machine.methods[k]? = some t → ∀ x, h.Finds x k (t.find? x)) ∧
          ∀ (f : Frame) callers i, s.machine.frames = f :: callers →
            f.closure.prototype.chunk.instrAt? f.ip = some i →
              (∀ look, i.superLookup? f.closure.prototype = some look →
                ∃ r, (∀ k r', h.Belongs f.closure k → h.superclass? k = some r' → r' = r) ∧
                  s.machine.step = look r { s.machine.past f callers i with stack := s.machine.stack.pop }) ∧
              (∀ index, i = .makeClass index → ∃ d, Declares s h f callers d) := by
  refine ⟨here.chronicle, fun h chronicle => ⟨?_, fun f callers i frames decoded => ?_⟩⟩
  · obtain ⟨⟨l, account⟩, -⟩ := here.tells chronicle.told
    exact fun k t there x => account.finds there x
  · cases phase with
    | resting =>
      have idle : s.machine.Idle := here.keeps
      cases frames.symm.trans idle.frames
    | running =>
      obtain ⟨followed, ready, ordered⟩ := chronicle.followed
      refine ⟨fun look looks => ?_, fun index makes => chronicle.declares frames (makes ▸ decoded)⟩
      have super : i.opcode = .getSuper ∨ i.opcode = .superInvoke := by
        cases i with
        | getSuper => exact .inl rfl
        | superInvoke => exact .inr rfl
        | _ => cases looks
      obtain ⟨r, top, found⟩ := (followed.midway ready ordered).superFound frames decoded super
      exact ⟨r, fun k r' => found, ready.looksUp frames decoded looks top⟩

/-- A method that a class has inherited, and a look-up in the superclass that the next step makes. -/
theorem classes_inherit_super : ∃ s h f callers w, Chronicle (NativeBody.Fair True) .running s h ∧
    h.superclass? 1 = some ⟨0, "A"⟩ ∧ h.own? 1 "m" = none ∧ h.own? 0 "m" = some w ∧
    (∃ t, s.machine.methods[1]? = some t ∧ t.find? "m" = some w) ∧
    s.machine.frames = f :: callers ∧
    ∃ r, (∀ k r', h.Belongs f.closure k → h.superclass? k = some r' → r' = r) ∧
      s.machine.step =
        invokeFromClass r "m" 0 { s.machine.past f callers (.superInvoke 0 0) with stack := s.machine.stack.pop } := by
  generalize loads : (start .quiet).load
    "class A \x7b m() \x7b\x7d \x7d class B < A \x7b k() \x7b super.m(); \x7d \x7d B().k();" = loaded
  have accepted : loaded.1 = true := by
    rw [← loads]
    decide +kernel
  obtain ⟨_, s₁⟩ := loaded
  obtain rfl := accepted
  have running : ((s₁.happenings 21).superclass? 1 = some ⟨0, "A"⟩ ∧ (s₁.happenings 21).own? 1 "m" = none ∧
      ((s₁.happenings 21).own? 0 "m").isSome) ∧
      (s₁.advance 21).1 = none ∧ (s₁.advance 21).2.machine.methods.size = 2 ∧
      ((s₁.advance 21).2.machine.frames.head?.bind fun f => f.closure.prototype.chunk.instrAt? f.ip) =
        some (.superInvoke 0 0) ∧
      ((s₁.advance 21).2.machine.frames.head?.map fun f => f.closure.prototype.chunk.constantText 0) = some "m" := by
    rw [show s₁ = ((start .quiet).load _).2 from (congrArg Prod.snd loads).symm]
    decide +kernel
  obtain ⟨⟨superclass, nothing, own⟩, goesOn, size, next, named⟩ := running
  obtain ⟨w, own⟩ := Option.isSome_iff_exists.1 own
  generalize advances : s₁.advance 21 = advanced at goesOn size next named
  obtain ⟨_, s⟩ := advanced
  obtain rfl := goesOn
  have chronicle : Chronicle (NativeBody.Fair True) .running s (s₁.happenings 21) := by
    refine ⟨.quiet, ?_⟩
    rw [← List.append_nil (s₁.happenings 21)]
    exact (Recounts.refl.rest (.load loads)).advance advances
  obtain ⟨f, first, next⟩ := Option.bind_eq_some_iff.1 next
  obtain ⟨callers, frames⟩ : ∃ callers, s.machine.frames = f :: callers := List.head?_eq_some_iff.1 first
  have text : f.closure.prototype.chunk.constantText 0 = "m" := by
    rw [first] at named
    exact Option.some.inj named
  obtain ⟨t, there⟩ : ∃ t, s.machine.methods[1]? = some t :=
    ⟨_, Array.getElem?_eq_getElem (by rw [size]; decide)⟩
  obtain ⟨tables, steps⟩ := (classes_inherit chronicle.reached).2 _ chronicle
  obtain ⟨r, only, step⟩ := (steps f callers _ frames next).1 _ rfl
  refine ⟨s, _, f, callers, w, chronicle, superclass, nothing, own, ⟨t, there, ?_⟩, frames, r, only, ?_⟩
  · exact (tables 1 t there "m").unique (.inherited nothing superclass (.own own))
  · rw [step, text]

/-- A method of a class, if it has any of this name. -/
def methodOf? (s : Session) (k : Nat) (x : String) : Option Closure :=
  s.machine.methods[k]?.bind (·.find? x)

/-- With functions of the host that make any closures, a class may get a method when it has been declared. -/
theorem made_closure_patches : ∃ (d : ClassCode) (s s₁ s₂ : Session) (f : Frame), Reached (fun _ => True) .running s ∧
    s.machine.frames = [f] ∧ f.closure.prototype.CodeAt f.ip d.instrs ∧
    s.advance d.instrs.length = (none, s₁) ∧ s₁.machine.frames.map Frame.ip = [f.ip + codeSize d.instrs] ∧
    s₁.advance 6 = (none, s₂) ∧ s₁.methodOf? (d.made f s.machine).serial "m" = none ∧
    ∃ w, s₂.methodOf? (d.made f s.machine).serial "m" = some w := by
  let d : ClassCode := ⟨0, some 0, none, .globalName 0, []⟩
  let inner := Prototype.ofCode 0 #[] (#[Opcode.nil, .ret].map Opcode.toByte) 0
  let code := #[Opcode.getGlobal.toByte, 0, Opcode.closure.toByte, 1, Opcode.method.toByte, 2]
  let constants : Array Constant := #[.string ⟨0, "A"⟩, .prototype inner, .string ⟨0, "m"⟩]
  obtain ⟨s, here, one, codeAt, goesOn, place, goesOn', none, some⟩ := exists_hosting
    (P := fun s => s.machine.frames.length = 1 ∧
      (∀ f ∈ s.machine.frames, f.closure.prototype.CodeAt f.ip d.instrs) ∧
      (s.advance d.instrs.length).1 = none ∧
      (s.advance d.instrs.length).2.machine.frames.map Frame.ip =
        s.machine.frames.map (fun f => f.ip + codeSize d.instrs) ∧
      ((s.advance d.instrs.length).2.advance 6).1 = none ∧
      ((s.advance d.instrs.length).2.methodOf? s.machine.methods.size "m").isNone ∧
      (((s.advance d.instrs.length).2.advance 6).2.methodOf? s.machine.methods.size "m").isSome)
    (show ((hosting (handOut (.ofCode 0 constants code))).midway "class A {} make()();" 0).any _ = true by
      decide +kernel)
  obtain ⟨f, frames⟩ := List.length_eq_one_iff.1 one
  rw [frames] at codeAt place
  exact ⟨d, s, _, _, f, here, frames, codeAt f List.mem_cons_self, Prod.ext goesOn rfl, place, Prod.ext goesOn' rfl,
    Option.isNone_iff_eq_none.1 none, Option.isSome_iff_exists.1 some⟩

end Session

end Lox
