import Lox.Proofs.Machine.Transfer
import Lox.Proofs.Session.Quiescence

/-!
# Safety

In every state of a session the memory is in order, and in a run the machine is ready for its next step
(`Reached.fit`).  So no step of a run comes to a defect, as long as the functions of the host make no
closures but copies and those over functions of accepted sources that capture nothing (`running_safe`).
One that does may hand out a closure without code, and a call of that runs off its code
(`made_closure_defect`).
-/

namespace Lox

open Compile Machine

variable {bare : Prop} {c : Census} {S : List Slot} {m m' : Machine}

/-! ## Memory at rest -/

/-- What is known of the memory between runs, and of the machine in a run. -/
def Phase.Fit (bare : Prop) : Phase → Machine → Prop
  | .resting, m => ∃ c, Memory bare c [] m
  | .running, m => Ready bare m

/-- Nothing that is known of memory depends on the rest of the machine. -/
lemma Machine.Ready.of_same (ready : Ready bare m) (frames : m'.frames = m.frames)
    (globals : m'.globals = m.globals)
    (memory : ∀ {c S}, Memory bare c S m → Memory bare c S m') : Ready bare m' := by
  rcases ready with ⟨c, T, E, f, callers, below, σ, there, h⟩ | ⟨none, c, S, f, callers, calls, empty, h⟩
  · exact Or.inl ⟨c, T, E, f, callers, below, σ, there,
      h.change (.refl c) frames globals (memory h.memory) fun _ known => known⟩
  · exact Or.inr ⟨none, c, S, f, callers, frames.trans calls, empty, memory h⟩

/-- When there is nothing on the stack then nothing is known of it. -/
lemma Machine.Intact.resting (intact : Intact bare m) (empty : m.stack = #[]) :
    ∃ c, Memory bare c [] m := by
  obtain ⟨c, S, memory⟩ := intact
  have size := memory.stack.size
  rw [empty] at size
  obtain rfl := List.eq_nil_of_length_eq_zero size
  exact ⟨c, memory⟩

/-- All cells can be closed. -/
lemma Machine.Memory.closes (h : Memory bare c S m) (ordered : m.Ordered) :
    ∃ closing openCells, m.partCells 0 m.openCells = some (closing, openCells) ∧
      CellsFit bare c [] (closeAll closing m.cells) := by
  have whole : S ++ [] = S := List.append_nil S
  rw [← whole] at h
  exact h.cells.close h.stack ordered

/-- A machine that is given up keeps its memory. -/
lemma Machine.Intact.reset (intact : Intact bare m) (ordered : m.Ordered) :
    ∃ c, Memory bare c [] m.reset := by
  obtain ⟨c, S, memory⟩ := intact
  obtain ⟨closing, openCells, parts, cells⟩ := memory.closes ordered
  refine ⟨c, memory.objects, ?_, .empty bare c⟩
  rw [Machine.reset, parts]
  exact cells

/-- A function of the host becomes a global. -/
lemma Machine.Memory.defineNative (h : Memory bare c [] m) (name : String) (arity : UInt8)
    {body : NativeBody} (fair : body.Fair bare) (strings : StringTable) :
    let (f, m') := { m with strings }.newNative name arity body
    ∃ c', Memory bare c' [] { m' with globals := m'.globals.insert name f } := by
  have renamed : Memory bare c [] { m with strings } := ⟨h.objects, h.cells, h.stack⟩
  obtain ⟨c', -, memory, sound⟩ := renamed.newNative name arity fair
  exact ⟨c', memory.objects.setGlobal name sound, memory.cells, memory.stack⟩

/-! ## Scripts -/

/-- The script of a source captures nothing. -/
lemma Compile.Compiled.captures_script {p : Prototype} {Γ : Context} {start : List Local}
    {items : List Item} (compiled : Compiled p Γ start items) (script : Γ.around = []) :
    p.captureCount = 0 := by
  obtain ⟨_, _, _, _, -, assembles, -⟩ := compiled.assembles
  rw [assembles.captureCount]
  refine Nat.eq_zero_of_not_pos fun some => ?_
  obtain ⟨x, captured⟩ := assembles.captured 0 some
  rw [script] at captured
  exact nomatch captured

namespace Session

/-- The machine is ready for the first step of a script. -/
lemma loaded_ready (idle : m.Idle) (memory : Memory bare c [] m) {p : Prototype} {Γ : Context}
    {v : Local} {items : List Item} (compiled : Compiled p Γ [v] items) (script : Γ.around = [])
    (strings : StringTable) (nextPrototype : Nat) :
    Ready bare (loaded m p strings nextPrototype) := by
  have nothing := compiled.captures_script script
  have captures : c.Captures #[] p.captureCount Γ.captured :=
    ⟨nothing.symm, fun i cell there => nomatch there⟩
  have sound : Closure.Sound bare c ⟨m.nextClosure, p, #[]⟩ :=
    Or.inl ⟨Γ.captured, ⟨Γ, [v], items, compiled, rfl⟩, captures⟩
  obtain ⟨E, fits⟩ := compiled.fits
  obtain ⟨start, length, any, entry⟩ := fits.entry
  have arity := compiled.arity
  rw [Nat.add_comm, ← arity] at length
  obtain ⟨s, rfl⟩ := List.length_eq_one_iff.1 length
  have kind : s.kind = .any := any s List.mem_cons_self
  have active : Active bare c Γ.surroundings E ⟨⟨m.nextClosure, p, #[]⟩, 0, 0⟩ [] []
      ⟨[s], none⟩ (loaded m p strings nextPrototype) := {
    frames := by rw [loaded, idle.frames, idle.stack]; rfl
    calls := ⟨fits, by rw [fits.captureCount]; exact captures⟩
    base := rfl
    suspended := .nil
    memory := ⟨memory.objects, memory.cells.push s,
      memory.stack.push (by rw [kind]; trivial) sound⟩
    global := fun _ known => nomatch known }
  exact active.ready entry

/-! ## Turns -/

lemma Journaled.memory (journaled : Journaled m m') (h : Memory bare c S m) : Memory bare c S m' := by
  obtain ⟨journal, rfl⟩ := journaled
  exact ⟨h.objects, h.cells, h.stack⟩

lemma Journaled.fit (journaled : Journaled m m') {phase : Phase} (fit : phase.Fit bare m) :
    phase.Fit bare m' := by
  cases phase with
  | resting =>
    obtain ⟨c, memory⟩ := fit
    exact ⟨c, journaled.memory memory⟩
  | running =>
    have memory : ∀ {c S}, Memory bare c S m → Memory bare c S m' := journaled.memory
    obtain ⟨journal, rfl⟩ := journaled
    exact Machine.Ready.of_same fit rfl rfl memory

/-- A run that goes on has come to a state where the machine is ready, and one that stops to a last
step from there. -/
lemma advance_ready {s s' : Session} {fuel : Nat} {stop? : Option Stop}
    (keeps : Phase.running.Keeps s.machine) (ready : Ready bare s.machine)
    (runs : s.advance fuel = (stop?, s')) :
    After (fun m => Phase.running.Keeps m ∧ Ready bare m) stop? s'.machine := by
  refine advance_stops (fun m m' journaled ⟨keeps, ready⟩ => ?_) (fun m m' ⟨keeps, ready⟩ step => ?_)
    ⟨keeps, ready⟩ runs
  · exact ⟨journaled.keeps keeps, @Journaled.fit _ _ _ journaled .running ready⟩
  · have yields := step_yields ready keeps.1
    rw [step] at yields
    exact ⟨step_keeps keeps step, yields⟩

variable {s s' : Session} {phase phase' : Phase}

/-- After every turn the memory is in order again. -/
lemma Turn.fit (turn : Turn (NativeBody.Fair bare) phase s phase' s') (keeps : phase.Keeps s.machine)
    (fit : phase.Fit bare s.machine) : phase'.Fit bare s'.machine := by
  cases turn with
  | native admitted =>
    obtain ⟨c, memory⟩ := fit
    obtain ⟨c', memory'⟩ := memory.defineNative _ _ admitted _
    exact ⟨c', (note_journaled _ _ _).memory memory'⟩
  | reject rejects =>
    obtain ⟨c, memory⟩ := fit
    obtain ⟨strings, journaled⟩ := load_rejects rejects
    exact ⟨c, journaled.memory ⟨memory.objects, memory.cells, memory.stack⟩⟩
  | load loads =>
    have idle : s.machine.Idle := keeps
    obtain ⟨c, memory⟩ := fit
    obtain ⟨p, strings, nextPrototype, compiles, journaled⟩ := load_idle loads idle
    obtain ⟨Γ, v, items, script, compiled⟩ := compile_compiled compiles
    exact journaled.fit (loaded_ready idle memory compiled script strings nextPrototype)
  | advance goesOn => exact (advance_ready keeps fit goesOn).2
  | finish stops finishes sound =>
    obtain ⟨m, ⟨keeps, ready⟩, step⟩ := advance_ready keeps fit stops
    have evolving : Machine.Evolving Machine.step := inferInstance
    have evolves := evolving.evolves m
    have ends := evolving.ends m keeps.1 keeps.2
    have yields := step_yields ready keeps.1
    rw [step] at evolves ends yields
    rcases finish_machine finishes sound with
      ⟨rfl, -, journaled⟩ | ⟨error, m', rfl, -, journaled, closes, given_up⟩
    · have intact : Intact bare _ := yields
      obtain ⟨c, memory⟩ := intact.resting ends.stack
      exact ⟨c, journaled.memory memory⟩
    · show ∃ c, Memory bare c [] s'.machine
      obtain ⟨c, S, memory⟩ := yields
      have intact : Intact bare m' := ⟨c, S, journaled.memory memory⟩
      have running : Phase.running.Keeps _ := ⟨evolves.ordered keeps.1, ends⟩
      rw [given_up]
      exact intact.reset (journaled.keeps running).1
  | time now =>
    cases phase with
    | resting =>
      obtain ⟨c, memory⟩ := fit
      exact ⟨c, memory.objects, memory.cells, memory.stack⟩
    | running => exact Machine.Ready.of_same fit rfl rfl fun h => ⟨h.objects, h.cells, h.stack⟩
  | journal => exact Journaled.fit ⟨_, rfl⟩ fit

/-- The clock makes nothing. -/
lemma clock_makes {made : Prototype → Prop} : clock.Makes made :=
  makes_of_plain fun host _ _ answer => ⟨_, (Except.ok.inj answer).symm, .number host.now⟩

lemma start_fit (verbosity : Verbosity) : Phase.resting.Fit bare (start verbosity).machine := by
  have objects : Objects bare ⟨0, 0, 0, []⟩ #[] #[] .empty #[] #[] :=
    ⟨rfl, rfl, rfl, fun t there => (nomatch there), fun t there => (nomatch there), sound_empty,
      fun body there => (nomatch there), fun call there => (nomatch there)⟩
  have cells : CellsFit bare ⟨0, 0, 0, []⟩ [] #[] :=
    ⟨rfl, fun there => (nomatch there), fun there => (nomatch there)⟩
  have empty : Memory bare ⟨0, 0, 0, []⟩ [] Machine.empty := ⟨objects, cells, .empty bare _⟩
  obtain ⟨c, memory⟩ := empty.defineNative _ 0 clock_makes _
  exact ⟨c, (note_journaled _ _ _).memory memory⟩

/-- The memory is in order in every state of a session, and in a run the machine is ready. -/
theorem Reached.fit (here : Reached (NativeBody.Fair bare) phase s) : phase.Fit bare s.machine :=
  @Reached.invariant _ _ _ (fun phase s => phase.Fit bare s.machine) here start_fit
    fun here fit turn => turn.fit here.keeps fit

/-! ## Defects -/

/-- Between two steps there is a call, and there are not too many. -/
lemma Reached.calls {Admitted : NativeBody → Prop} (here : Reached Admitted .running s) :
    1 ≤ s.machine.frames.length ∧ s.machine.frames.length ≤ maxFrames := by
  obtain ⟨-, bottom, few⟩ := here.keeps
  refine ⟨List.length_pos_iff.2 fun none => ?_, few⟩
  rw [none] at bottom
  exact nomatch bottom

lemma Reached.step_sound (here : Reached (NativeBody.Fair False) .running s) (defect : Defect)
    (m : Machine) : s.machine.step ≠ .error (.broken defect) m := by
  intro step
  have yields := step_yields here.fit here.keeps.1
  rw [step] at yields
  exact yields

/-- A run that fails can be given up. -/
lemma finish_failed (intact : Intact bare s.machine) (ordered : s.machine.Ordered)
    (error : RuntimeError) : (s.finish (.failed error)).1 = .runtimeError := by
  have told : ∀ text lines, Journaled s.machine ((s.note .debug text).tell lines).machine :=
    fun text lines => (note_journaled s .debug text).trans (tell_journaled _ lines)
  have closes : ∀ m, Journaled s.machine m → (m.partCells 0 m.openCells).isSome := by
    intro m journaled
    obtain ⟨c, S, memory⟩ := intact
    have memory' := journaled.memory memory
    obtain ⟨journal, rfl⟩ := journaled
    obtain ⟨closing, openCells, parts, -⟩ := memory'.closes (ordered.of_same rfl rfl)
    rw [parts]
    rfl
  exact if_pos (closes _ (told _ _))

/-- A run that stops does so as a program may. -/
lemma Reached.finish_sound (here : Reached (NativeBody.Fair False) .running s) {fuel : Nat}
    {stop : Stop} (stops : s.advance fuel = (some stop, s')) (defect : Defect) :
    (s'.finish stop).1 ≠ .defect defect := by
  obtain ⟨m, ⟨keeps, ready⟩, step⟩ := advance_ready here.keeps here.fit stops
  have yields := step_yields ready keeps.1
  rw [step] at yields
  cases stop with
  | finished => exact fun told => nomatch told
  | failed error =>
    have evolving : Machine.Evolving Machine.step := inferInstance
    have evolves := evolving.evolves m
    rw [step] at evolves
    rw [finish_failed yields (evolves.ordered keeps.1) error]
    exact fun told => nomatch told
  | broken => exact absurd yields id

/-- In every state of a run there are from one to 64 calls.  If the functions of the host make no closures but copies
and those over functions of accepted sources that capture nothing, then the next step comes to no defect, and neither
does the end of the run. -/
theorem running_safe {Admitted : NativeBody → Prop} (here : Reached Admitted .running s) :
    (1 ≤ s.machine.frames.length ∧ s.machine.frames.length ≤ 64) ∧
      ((∀ body, Admitted body → body.Fair False) →
        (∀ defect m, s.machine.step ≠ .error (.broken defect) m) ∧
          ∀ {fuel stop s'}, s.advance fuel = (some stop, s') → ∀ defect, (s'.finish stop).1 ≠ .defect defect) :=
  ⟨here.calls, fun fair => ⟨(here.mono fair).step_sound, (here.mono fair).finish_sound⟩⟩

/-- A run in the middle of a method. -/
theorem running_safe_method :
    ∃ s₁ s₂, (start .quiet).load "class A { m() { return this; } } print A().m();" = (true, s₁) ∧
      s₁.advance 10 = (none, s₂) ∧ s₂.machine.frames.length = 2 ∧
      ∀ defect m, s₂.machine.step ≠ .error (.broken defect) m := by
  generalize loads : (start .quiet).load _ = loaded
  have accepted : loaded.1 = true := by
    rw [← loads]
    decide +kernel
  obtain ⟨_, s₁⟩ := loaded
  obtain rfl := accepted
  generalize goesOn : s₁.advance 10 = advanced
  have running : advanced.1 = none ∧ advanced.2.machine.frames.length = 2 := by
    rw [← goesOn, show s₁ = ((start .quiet).load _).2 from (congrArg Prod.snd loads).symm]
    decide +kernel
  obtain ⟨_, s₂⟩ := advanced
  obtain ⟨rfl, two⟩ := running
  have here : Reached (NativeBody.Fair False) .running s₂ :=
    ((Reached.start .quiet).turn (.load loads)).turn (.advance goesOn)
  exact ⟨s₁, s₂, rfl, goesOn, two, ((running_safe here).2 fun _ => id).1⟩

/-- A session where a function of the host is called `make`. -/
def hosting (body : NativeBody) : Session := (start .quiet).defineNative "make" 0 body

/-- What can be tested midway in such a session holds of a state that it comes to, if all functions of the host are
admitted. -/
lemma exists_hosting {P : Session → Prop} [DecidablePred P] {body : NativeBody} {source : String} {fuel : Nat}
    (test : ((hosting body).midway source fuel).any (fun s => P s) = true) :
    ∃ s, Reached (fun _ => True) .running s ∧ P s :=
  ((Reached.start .quiet).turn (.native trivial)).exists_midway test

/-- What is the same as a class is one. -/
lemma exists_class {v? : Option Value} {r : ClassRef} (same : v?.map (·.same (.cls r)) = some true) :
    ∃ c, v? = some (.cls c) := by
  obtain ⟨v, rfl, same⟩ := Option.map_eq_some_iff.1 same
  cases v with
  | cls c => exact ⟨c, rfl⟩
  | _ => cases same

/-- A function of the host that makes a closure. -/
def makeClosure : NativeBody := fun _ _ => .ok (.closure "f")

/-- With functions of the host that make any closures, a step may come to a defect. -/
theorem made_closure_defect :
    ¬ ∀ {s}, Reached (fun _ => True) .running s → ∀ defect m, s.machine.step ≠ .error (.broken defect) m := by
  intro safe
  obtain ⟨s, here, broken⟩ := exists_hosting (P := fun s => stop? s.machine.step = some (.broken .codeEnds))
    (show ((hosting makeClosure).midway "make()();" 3).any _ = true by decide +kernel)
  exact safe here _ _ (eq_error_of_stop? broken)

end Session

end Lox
