import Lox.Proofs.Compile.Format
import Lox.Proofs.Machine.Evolution
import Lox.Proofs.Session.Reach

/-!
# Quiescence

Between two runs of a session the machine is at rest: there is neither a value nor a call, and no
cell is open (`interpret_idle`).  So what a run leaves to the next one are the globals, the string
objects and the objects themselves, with the values of closed cells.

A run that finishes returns from the call of the script, whose slots start at place zero; a run that
fails is given up.
-/

namespace Lox

/-- What is known of the machine between runs, and in a run. -/
def Phase.Keeps : Phase → Machine → Prop
  | .resting, m => m.Idle
  | .running, m => m.Ordered ∧ m.Grounded

namespace Session

variable {Admitted : NativeBody → Prop} {s s' : Session}

lemma Journaled.idle {m m' : Machine} (journaled : Journaled m m') (idle : m.Idle) : m'.Idle := by
  obtain ⟨journal, rfl⟩ := journaled
  exact idle.of_same rfl rfl rfl rfl

lemma Journaled.keeps {m m' : Machine} (journaled : Journaled m m') {phase : Phase}
    (keeps : phase.Keeps m) : phase.Keeps m' := by
  cases phase with
  | resting => exact journaled.idle keeps
  | running =>
    obtain ⟨journal, rfl⟩ := journaled
    exact ⟨keeps.1.of_same rfl rfl, keeps.2.of_same rfl⟩

/-- Steps keep the cells in order and the call at the bottom at place zero. -/
lemma step_keeps {m m' : Machine} (keeps : Phase.running.Keeps m) (step : m.step = .ok () m') :
    Phase.running.Keeps m' := by
  have evolving : Machine.Evolving Machine.step := inferInstance
  have evolves := evolving.evolves m
  have ends := evolving.ends m keeps.1 keeps.2
  rw [step] at evolves ends
  exact ⟨evolves.ordered keeps.1, ends⟩

/-- The machine at the start of a script. -/
lemma loaded_keeps {m : Machine} (idle : m.Idle) (p : Prototype) (strings : StringTable)
    (nextPrototype : Nat) : Phase.running.Keeps (loaded m p strings nextPrototype) := by
  refine ⟨idle.ordered.of_same rfl rfl, ?_, ?_⟩
  · rw [loaded, idle.frames, idle.stack]
    rfl
  · rw [loaded, idle.frames]
    exact Nat.succ_le_of_lt (by decide)

/-- A machine that is given up closes all its cells. -/
lemma reset_idle {m : Machine} (ordered : m.Ordered)
    (closes : (m.partCells 0 m.openCells).isSome) : m.reset.Idle := by
  obtain ⟨⟨closing, openCells⟩, parts⟩ := Option.isSome_iff_exists.1 closes
  have cells : m.reset.cells = Machine.closeAll closing m.cells := by
    rw [Machine.reset, parts]
    rfl
  obtain ⟨ordered', below⟩ := @Machine.close_ordered m m
    { m with openCells, cells := Machine.closeAll closing m.cells } ordered 0 closing rfl parts rfl
  obtain ⟨-, closed⟩ :=
    ordered'.nothing_open fun i slot place => Nat.not_lt_zero _ (below i slot place)
  refine ⟨rfl, rfl, rfl, ?_⟩
  rw [cells]
  exact closed

/-- The script of a source takes no arguments. -/
lemma script_arity {source : String} {strings : StringTable} {serial : Nat} {p : Prototype}
    (compiles : (compile source strings serial).outcome = .ok p) : p.arity = 0 := by
  obtain ⟨Γ, v, items, -, compiled⟩ := compile_compiled compiles
  have length := compiled.arity
  rw [List.length_singleton, Nat.left_eq_add] at length
  exact UInt8.toNat_inj.1 length

/-- At rest there is room for the call of a script. -/
lemma load_idle {source : String} (loads : s.load source = (true, s')) (idle : s.machine.Idle) :
    ∃ p strings nextPrototype,
      (compile source s.machine.strings s.machine.nextPrototype).outcome = .ok p ∧
        Journaled (loaded s.machine p strings nextPrototype) s'.machine := by
  refine load_runs loads ?_ fun p compiles => script_arity compiles
  rw [idle.frames]
  decide

lemma start_idle (verbosity : Verbosity) : (start verbosity).machine.Idle := by
  have idle : Machine.empty.Idle := ⟨rfl, rfl, rfl, fun _ there => nomatch there⟩
  exact (note_journaled _ _ _).idle (idle.of_same rfl rfl rfl rfl)

/-- After every turn the machine is at rest, or its cells are in order. -/
lemma Turn.keeps {phase phase' : Phase} (turn : Turn Admitted phase s phase' s')
    (keeps : phase.Keeps s.machine) : phase'.Keeps s'.machine := by
  cases turn with
  | native admitted =>
    exact (note_journaled _ _ _).idle (Machine.Idle.of_same keeps rfl rfl rfl rfl)
  | reject rejects =>
    obtain ⟨strings, journaled⟩ := load_rejects rejects
    exact journaled.idle (Machine.Idle.of_same keeps rfl rfl rfl rfl)
  | load loads =>
    obtain ⟨p, strings, nextPrototype, -, journaled⟩ := load_idle loads keeps
    exact journaled.keeps (loaded_keeps keeps p strings nextPrototype)
  | advance goesOn =>
    exact advance_stops (fun _ _ journaled keeps => journaled.keeps keeps)
      (fun _ _ keeps step => step_keeps keeps step) keeps goesOn
  | finish stops finishes sound =>
    obtain ⟨m, keeps, step⟩ := advance_stops (fun _ _ journaled keeps => journaled.keeps keeps)
      (fun _ _ keeps step => step_keeps keeps step) keeps stops
    have evolving : Machine.Evolving Machine.step := inferInstance
    have evolves := evolving.evolves m
    have ends := evolving.ends m keeps.1 keeps.2
    rw [step] at evolves ends
    rcases finish_machine finishes sound with
      ⟨rfl, -, journaled⟩ | ⟨error, m', rfl, -, journaled, closes, given_up⟩
    · exact journaled.idle ends
    · show s'.machine.Idle
      rw [given_up]
      have running : Phase.running.Keeps _ := ⟨evolves.ordered keeps.1, ends⟩
      exact reset_idle (journaled.keeps running).1 closes
  | time now =>
    cases phase with
    | resting => exact Machine.Idle.of_same keeps rfl rfl rfl rfl
    | running => exact ⟨keeps.1.of_same rfl rfl, keeps.2.of_same rfl⟩
  | journal => exact Journaled.keeps ⟨_, rfl⟩ keeps

/-- Between runs the machine is at rest, and in a run its cells are in order. -/
theorem Reached.keeps {phase : Phase} (here : Reached Admitted phase s) :
    phase.Keeps s.machine :=
  @Reached.invariant _ _ _ (fun phase s => phase.Keeps s.machine) here start_idle
    fun _ keeps turn => turn.keeps keeps

/-- When a source has been run, whatever has come of it, the machine is at rest. -/
theorem interpret_idle {fuel : Nat} {source : String} {outcome : Outcome}
    (here : Reached Admitted .resting s) (returns : s.interpret fuel source = (some outcome, s'))
    (sound : ∀ defect, outcome ≠ .defect defect) : s'.machine.Idle :=
  (here.interpret returns sound).keeps

/-- An error in an inner call, where a closure has captured a variable of the outer one. -/
theorem interpret_idle_error :
    ∃ s', (start .quiet).interpret 100
        "fun f() \x7b var a; fun g() \x7b a = f; print -a; \x7d g(); \x7d f();" =
          (some .runtimeError, s') ∧
      s'.machine.Idle := by
  generalize returns : (start .quiet).interpret _ _ = result
  have fails : result.1 = some .runtimeError := by
    rw [← returns]
    decide +kernel
  obtain ⟨outcome, s'⟩ := result
  obtain rfl := fails
  have here : Reached (fun _ => True) .resting (start .quiet) := .start .quiet
  exact ⟨s', rfl, interpret_idle here returns fun _ other => nomatch other⟩

end Session

end Lox
