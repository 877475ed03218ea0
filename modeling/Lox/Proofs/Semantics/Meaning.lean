import Lox.Proofs.Semantics.Preservation
import Lox.Proofs.Session.Quiescence
import Lox.Proofs.Syntax.Rendering

/-!
# What programs mean

A source whose program has no functions and classes does in a session what the evaluator does in the
environment of the session: it comes to an end if and only if the evaluator does, and then the outcome,
what is printed, the error that is reported and the globals are the evaluator's
(`Session.interpret_evaluates`).
-/

namespace Lox

open Compile Syntax

namespace Plain

variable {c : Closure} {r : List String} {k n fuel : Nat} {traced : Bool} {m m' : Machine} {env : Env} {p : Prototype}
  {program : Stmt .declarations} {d : Datum} {stop : Stop}

/-! ## Scripts -/

/-- Code that is compiled stands from its start on. -/
lemma codeAt_compiled {Γ : Context} {start : List Local} {items : List Item}
    (compiled : Compiled c.prototype Γ start items) : CodeAt c 0 (instrs items) := by
  have suffix : ∀ before after, instrs items = before ++ after → CodeAt c (codeSize before) after := by
    intro before after split
    induction after generalizing before with
    | nil => trivial
    | cons i after ih =>
      have later := ih (before ++ [i]) (by rw [split, List.append_assoc]; rfl)
      rw [codeSize_append, codeSize_cons, codeSize_nil, Nat.add_zero] at later
      refine ⟨⟨compiled.decoded split, ?_⟩, later⟩
      have size : c.prototype.chunk.size = codeSize (instrs items) := by
        rw [Chunk.size, ← Array.length_toList, compiled.code, length_bytes]
      rw [size, split, codeSize_append, codeSize_cons]
      omega
  exact suffix [] _ rfl

/-- The machine executes the script to its end if the evaluator does; it stops with the same error if there
is one; and if the evaluator is out of turns, it makes at least `k` steps. -/
def Concludes (traced : Bool) (r : List String) (k : Nat) (m : Machine) : EStateM.Result Halt Env Unit → Prop
  | .ok _ env => ∃ n m', m.run traced n = (some .finished, m') ∧ Seen r env.globals env.printed m'
  | .error (.error e) env =>
    ∃ n m', m.run traced n = (some (.failed e), m') ∧ Seen r env.globals env.printed m'
  | .error .outOfTurns _ => ∃ m', m.run traced k = (none, m')

/-- Where the script returns, the run is at its end. -/
lemma ret_finishes (traced : Bool) {o : Nat} {ds : List Datum} {g : String → Option Datum} {printed : List String}
    (here : At c r o (d :: ds) g printed m) (code : InstrAt c o .ret) :
    ∃ m', m.run traced 1 = (some .finished, m') ∧ Seen r g printed m' := by
  obtain ⟨w, there, steps⟩ := here.reads traced code
  obtain ⟨rest, v, top, -, -⟩ := there.top
  have last : w.stack.back? = some v := by rw [top, Array.back?_push]
  have returns := Machine.ret_apply there.frames last
  have settled : w.leaving.partCells 0 w.openCells = some ([], []) := by
    rw [there.seen.settled]
    rfl
  dsimp only at returns
  rw [settled] at returns
  have result : ∃ m', Machine.ret w = .error .finished m' ∧ Seen r g printed m' :=
    ⟨_, returns, there.seen.globals, there.seen.printed, there.seen.reported, rfl⟩
  obtain ⟨m', returns, seen⟩ := result
  refine ⟨m', ?_, seen⟩
  rw [Machine.run, steps, Machine.exec, returns]

theorem script_concludes (emits : ScriptEmits c.prototype program.tree) (proper : program.tree.Proper)
    (outside : env.locals = []) (here : At c r 0 [d] env.globals env.printed m) :
    Concludes traced r fuel m (program.execute fuel true env) := by
  obtain ⟨Γ, v, items, L, kind, around, named, emits, assembles⟩ := emits
  have placed := codeAt_compiled (.script kind around named emits proper assembles)
  rw [kind, instrs_append, instrs_under, codeAt_append, Nat.zero_add] at placed
  obtain ⟨body, nil, return_, -⟩ := placed
  have suits : Suits Γ c := ⟨assembles.constants, around⟩
  have start : Here c r 0 [] [] [v] env m := ⟨[d], outside ▸ .empty named, here⟩
  have follows : Follows traced _ fuel m _ _ := Stmt.follows suits emits proper (Nat.le_refl fuel) start body
  cases result : program.execute fuel true env with
  | ok _ env' =>
    rw [result] at follows
    obtain ⟨n, m₁, runs, slots, holds, there⟩ := follows
    rw [Nat.zero_add] at there
    obtain ⟨w, there, steps⟩ := there.reads traced nil
    obtain ⟨m₂, executes, there⟩ := pushNil_leads w there
    obtain ⟨m₃, finishes, seen⟩ := ret_finishes traced there return_
    refine ⟨n + (1 + 1), m₃, ?_, seen⟩
    have once : m₁.run traced 1 = (none, m₂) := by
      rw [Machine.run, steps, executes]
      rfl
    rw [Machine.run_add, runs]
    dsimp only
    rw [Machine.run_add, once]
    exact finishes
  | error halt env' =>
    rw [result] at follows
    cases halt <;> exact follows

/-- A run has one end. -/
lemma run_ends_once {stop' : Stop} {n' : Nat} (ends : m.run traced n = (some stop, m'))
    {m'' : Machine} (ends' : m.run traced n' = (some stop', m'')) : stop = stop' ∧ m' = m'' := by
  have longer : ∀ {n k stop m'}, m.run traced n = (some stop, m') → m.run traced (n + k) = (some stop, m') := by
    intro n k stop m' ends
    rw [Machine.run_add, ends]
  have one := longer (k := n') ends
  have other := longer (k := n) ends'
  rw [Nat.add_comm, other] at one
  obtain ⟨same, rfl⟩ := Prod.mk.inj one
  exact ⟨(Option.some.inj same).symm, rfl⟩

end Plain

namespace Session

open Lox.Plain hiding Stmt Expr

variable {Admitted : NativeBody → Prop} {s s' : Session} {source : String} {fuel fuel' : Nat} {outcome : Outcome}
  {program : Plain.Stmt .declarations} {r : List String} {g : String → Option Datum} {printed : List String}

/-- What a session holds for a program without functions. -/
def env (s : Session) : Plain.Env :=
  ⟨[], fun x => (s.machine.globals.find? x).map Value.datum, s.machine.printed⟩

/-- The evaluator comes to an end: it is not out of turns. -/
def Terminates (result : EStateM.Result Halt Plain.Env Unit) : Prop := ∀ env, result ≠ .error .outOfTurns env

/-- A source has come to the same as the evaluator: the outcome, what is printed, the globals, and the first line
of the report on an error. -/
def Agrees (s : Session) (outcome : Outcome) (s' : Session) : EStateM.Result Halt Plain.Env Unit → Prop
  | .ok _ env => outcome = .ok ∧ Seen s.machine.reported env.globals env.printed s'.machine
  | .error (.error e) env => outcome = .runtimeError ∧
    ∃ calls, Seen (s.machine.reported ++ e.message :: calls) env.globals env.printed s'.machine
  | .error .outOfTurns _ => False

/-! ## Loading and finishing -/

lemma seen_start (idle : s.machine.Idle) : Seen s.machine.reported s.env.globals s.env.printed s.machine :=
  ⟨fun _ => rfl, rfl, rfl, idle.openCells⟩

/-- An accepted source is loaded, and its script is at its start. -/
lemma load_at (idle : s.machine.Idle)
    (accepted : ∃ p, (compile source s.machine.strings s.machine.nextPrototype).outcome = .ok p) :
    ∃ p s', (compile source s.machine.strings s.machine.nextPrototype).outcome = .ok p ∧
      s.load source = (true, s') ∧
        At ⟨s.machine.nextClosure, p, #[]⟩ s.machine.reported 0 [.object (.closure ⟨s.machine.nextClosure, p, #[]⟩)]
          s.env.globals s.env.printed s'.machine := by
  obtain ⟨p, compiles⟩ := accepted
  have arity := script_arity compiles
  unfold load
  generalize compile source s.machine.strings s.machine.nextPrototype = done at compiles ⊢
  dsimp only
  rw [compiles]
  dsimp only
  have listed := recorded_listings done.finished
    { s with machine := { s.machine with strings := done.strings } }
  generalize Array.foldl _ _ done.finished = s₁ at listed ⊢
  have start : Seen s.machine.reported s.env.globals s.env.printed { s.machine with strings := done.strings } :=
    seen_start (s := { s with machine := { s.machine with strings := done.strings } })
      (Machine.Idle.of_same idle rfl rfl rfl rfl)
  have seen := start.recorded listed
  obtain ⟨journal, same, -⟩ := listed
  have few : s₁.machine.frames.length < Machine.maxFrames := by
    rw [same]
    show s.machine.frames.length < Machine.maxFrames
    rw [idle.frames]
    decide
  have calls := call_script
    { s₁.machine with nextPrototype := done.serial, nextClosure := s₁.machine.nextClosure + 1 }
    ⟨s₁.machine.nextClosure, p, #[]⟩ arity few
  refine ⟨p, { s₁ with machine := { s₁.machine with
    nextPrototype := done.serial, nextClosure := s₁.machine.nextClosure + 1
    stack := s₁.machine.stack.push (.closure ⟨s₁.machine.nextClosure, p, #[]⟩)
    frames := ⟨⟨s₁.machine.nextClosure, p, #[]⟩, 0, s₁.machine.stack.size⟩ :: s₁.machine.frames } }, rfl, ?_, ?_⟩
  · rw [Machine.newClosure]
    dsimp only
    rw [calls]
  · have nextClosure : s₁.machine.nextClosure = s.machine.nextClosure := by rw [same]
    refine ⟨?_, ?_, seen.globals, seen.printed, seen.reported, seen.settled⟩
    · show ⟨⟨s₁.machine.nextClosure, p, #[]⟩, 0, s₁.machine.stack.size⟩ :: s₁.machine.frames = _
      have frames : s₁.machine.frames = [] := by
        rw [same]
        exact idle.frames
      have stack : s₁.machine.stack = #[] := by
        rw [same]
        exact idle.stack
      rw [frames, stack, nextClosure]
      rfl
    · have stack : s₁.machine.stack = #[] := by
        rw [same]
        exact idle.stack
      show dataOf (s₁.machine.stack.push _) = _
      rw [stack, nextClosure]
      rfl

lemma tell_seen {t : Session} (seen : Seen r g printed t.machine) (lines : List String) :
    Seen (r ++ lines) g printed (t.tell lines).machine := by
  have tells : ∀ (lines r : List String) (m : Machine), Seen r g printed m →
      Seen (r ++ lines) g printed (lines.foldl (fun m line => m.note (.reported line)) m) := by
    intro lines
    induction lines with
    | nil => exact fun r m seen => (List.append_nil r).symm ▸ seen
    | cons line lines ih =>
      intro r m seen
      have told : Seen (r ++ [line]) g printed (m.note (.reported line)) := by
        refine ⟨seen.globals, ?_, ?_, seen.settled⟩
        · rw [← seen.printed]
          simp [Machine.printed, Machine.note, Event.output?]
        · rw [← seen.reported, Machine.reported_note]
          rfl
      have whole : r ++ line :: lines = r ++ [line] ++ lines := by simp
      exact whole ▸ ih _ _ told
  exact tells lines r t.machine seen

/-- A run that has come to its end is ended. -/
lemma finish_seen (seen : Seen r g printed s.machine) :
    (s.finish .finished).1 = .ok ∧ Seen r g printed (s.finish .finished).2.machine :=
  ⟨rfl, seen.recorded (recorded_note _ _ _)⟩

/-- A run that has failed is ended with a report. -/
lemma finish_seen_failed {e : RuntimeError} (seen : Seen r g printed s.machine) :
    (s.finish (.failed e)).1 = .runtimeError ∧
      ∃ calls, Seen (r ++ e.message :: calls) g printed (s.finish (.failed e)).2.machine := by
  have noted := seen.recorded (recorded_note s .debug ("script aborted: " ++ e.message))
  have told := tell_seen noted ((s.note .debug ("script aborted: " ++ e.message)).machine.report e)
  unfold finish
  dsimp only
  generalize Session.tell _ _ = t at told ⊢
  have closes : (t.machine.partCells 0 t.machine.openCells).isSome = true := by
    rw [told.settled]
    rfl
  rw [closes]
  exact ⟨rfl, _, told.globals, told.printed, told.reported, rfl⟩

/-! ## Runs -/

/-- A source has come to its end if its run has. -/
lemma interpret_apply {s₁ : Session} (loads : s.load source = (true, s₁)) (fuel : Nat) :
    s.interpret fuel source =
      match s₁.machine.run (s₁.verbosity.wants .trace) fuel with
      | (none, m) => (none, { s₁ with machine := m })
      | (some stop, m) =>
        (some ({ s₁ with machine := m }.finish stop).1, ({ s₁ with machine := m }.finish stop).2) := by
  unfold interpret advance
  rw [loads]
  dsimp only
  generalize s₁.machine.run _ fuel = result
  obtain ⟨stop | stop, m⟩ := result <;> rfl

/-- If the evaluator comes to an end, so does the source, and to the same. -/
lemma interpret_follows {s₁ : Session} {result : EStateM.Result Halt Plain.Env Unit} {k : Nat}
    (loads : s.load source = (true, s₁))
    (ends : Concludes (s₁.verbosity.wants .trace) s.machine.reported k s₁.machine result)
    (terminates : Terminates result) :
    ∃ fuel outcome s', s.interpret fuel source = (some outcome, s') ∧ Agrees s outcome s' result := by
  cases result with
  | ok _ env =>
    obtain ⟨n, m, runs, seen⟩ := ends
    obtain ⟨ok, seen⟩ := finish_seen (s := { s₁ with machine := m }) seen
    refine ⟨n, _, _, ?_, ok, seen⟩
    rw [interpret_apply loads, runs]
  | error halt env =>
    cases halt with
    | error e =>
      obtain ⟨n, m, runs, seen⟩ := ends
      obtain ⟨failed, calls, seen⟩ := finish_seen_failed (s := { s₁ with machine := m }) (e := e) seen
      refine ⟨n, _, _, ?_, failed, calls, seen⟩
      rw [interpret_apply loads, runs]
    | outOfTurns => exact absurd rfl (terminates env)

/-- However much fuel a source is given, it comes to one end. -/
lemma interpret_once {s₁ s'' : Session} {outcome' : Outcome} (loads : s.load source = (true, s₁))
    (ends : s.interpret fuel source = (some outcome, s')) (ends' : s.interpret fuel' source = (some outcome', s'')) :
    outcome = outcome' ∧ s' = s'' := by
  rw [interpret_apply loads] at ends ends'
  split at ends
  · cases ends
  · next stop m runs =>
    split at ends'
    · cases ends'
    · next stop' m' runs' =>
      obtain ⟨rfl, rfl⟩ := run_ends_once runs runs'
      obtain ⟨same, rfl⟩ := Prod.mk.inj ends
      obtain ⟨same', rfl⟩ := Prod.mk.inj ends'
      exact ⟨Option.some.inj (same.symm.trans same'), rfl⟩

/-- An accepted source without functions and classes is loaded, and its script does what the evaluator does. -/
lemma load_concludes (here : Reached Admitted .resting s)
    (reads : ReadsProgram ((Token.scan source).toList.map Token.word) program.tree)
    (accepted : ∃ p, (compile source s.machine.strings s.machine.nextPrototype).outcome = .ok p) :
    ∃ s₁, s.load source = (true, s₁) ∧ ∀ fuel,
      Concludes (s₁.verbosity.wants .trace) s.machine.reported fuel s₁.machine (program.execute fuel true s.env) := by
  obtain ⟨p, s₁, compiles, loads, start⟩ := load_at here.keeps accepted
  obtain ⟨ds, reads', proper, emits⟩ := compile_emits compiles
  obtain rfl := reads.unique reads'
  exact ⟨s₁, loads, fun fuel => script_concludes emits proper rfl start⟩

/-- A source without functions and classes comes to an end if and only if the evaluator does, and then to the
same: the outcome, the lines printed, the globals, and the error that is reported first. -/
theorem interpret_evaluates (here : Reached Admitted .resting s)
    (reads : ReadsProgram ((Token.scan source).toList.map Token.word) program.tree)
    (accepted : ∃ p, (compile source s.machine.strings s.machine.nextPrototype).outcome = .ok p) :
    ((∃ fuel, (s.interpret fuel source).1.isSome) ↔ ∃ fuel, Terminates (program.execute fuel true s.env)) ∧
      ∀ fuel fuel' outcome s', s.interpret fuel source = (some outcome, s') →
        Terminates (program.execute fuel' true s.env) → Agrees s outcome s' (program.execute fuel' true s.env) := by
  obtain ⟨s₁, loads, ends⟩ := load_concludes here reads accepted
  refine ⟨⟨fun ⟨fuel, stops⟩ => ⟨fuel, fun env out => ?_⟩, fun ⟨fuel, terminates⟩ => ?_⟩,
    fun fuel fuel' outcome s' returns terminates => ?_⟩
  · have goesOn := ends fuel
    rw [out] at goesOn
    obtain ⟨m, runs⟩ := goesOn
    rw [interpret_apply loads, runs] at stops
    cases stops
  · obtain ⟨fuel', outcome, s', returns, -⟩ := interpret_follows loads (ends fuel) terminates
    exact ⟨fuel', by rw [returns]; rfl⟩
  · obtain ⟨n, outcome', s'', returns', agrees⟩ := interpret_follows loads (ends fuel') terminates
    obtain ⟨rfl, rfl⟩ := interpret_once loads returns returns'
    exact agrees

/-- A loop with a variable makes a turn, and then a name has no value. -/
theorem interpret_evaluates_loop :
    ∃ (program : Plain.Stmt .declarations) (s' : Session),
      ReadsProgram ((Token.scan
        "var a = \"x\"; for (var i = nil; i == nil; i = true) \x7b var b = a; a = b + \"y\"; print a; \x7d print c;"
          ).toList.map Token.word) program.tree ∧
      (start .quiet).interpret 100
        "var a = \"x\"; for (var i = nil; i == nil; i = true) \x7b var b = a; a = b + \"y\"; print a; \x7d print c;" =
          (some .runtimeError, s') ∧
      Terminates (program.execute 2 true (start .quiet).env) ∧
      Agrees (start .quiet) .runtimeError s' (program.execute 2 true (start .quiet).env) ∧
      s'.machine.printed = ["xy"] := by
  let body : Plain.Stmt .declarations :=
    .declare (.var "b" (some (.name "a")))
      (.declare (.statement (.expression (.assign "a" (.binary .add (.name "b") (.string "\"y\"")))))
        (.declare (.statement (.print (.name "a"))) .noDeclarations))
  let program : Plain.Stmt .declarations :=
    .declare (.var "a" (some (.string "\"x\"")))
      (.declare (.statement (.forLoop (.var "i" (some .nil)) (some (.binary .equal (.name "i") .nil))
          (some (.assign "i" (.bool true))) (.block body)))
        (.declare (.statement (.print (.name "c"))) .noDeclarations))
  have clause : ∀ {e : Syntax.Expr .expression}, e.Canonical → ClauseCanonical (some e) :=
    fun canonical e there => Option.some.inj there ▸ canonical
  have canonical : program.tree.Canonical :=
    ⟨clause trivial,
      ⟨clause ⟨_, rfl⟩, clause ⟨.equality, _, rfl, trivial, by decide, ⟨_, rfl⟩, by decide⟩, clause ⟨_, rfl⟩,
        clause trivial, ⟨.term, _, rfl, trivial, by decide, trivial, by decide⟩, trivial, trivial⟩,
      trivial, trivial⟩
  have words : (Token.scan
      "var a = \"x\"; for (var i = nil; i == nil; i = true) \x7b var b = a; a = b + \"y\"; print a; \x7d print c;"
        ).toList.map Token.word = program.tree.words ++ [.mark .endOfInput] := by decide +kernel
  have reads := canonical.reads_program
  rw [← words] at reads
  generalize returns : (start .quiet).interpret 100 _ = result
  have fails : result.1 = some .runtimeError ∧ result.2.machine.printed = ["xy"] := by
    rw [← returns]
    decide +kernel
  have accepted : ∃ p, (compile
      "var a = \"x\"; for (var i = nil; i == nil; i = true) \x7b var b = a; a = b + \"y\"; print a; \x7d print c;"
        (start .quiet).machine.strings (start .quiet).machine.nextPrototype).outcome = .ok p := by
    generalize result : (compile _ _ _).outcome = outcome
    have compiles : outcome.toOption.isSome = true := by
      rw [← result]
      decide +kernel
    cases outcome with
    | error _ => cases compiles
    | ok p => exact ⟨p, rfl⟩
  have here : Reached (fun _ => True) .resting (start .quiet) := .start .quiet
  have terminates : Terminates (program.execute 2 true (start .quiet).env) := by
    intro env out
    have error : (match program.execute 2 true (start .quiet).env with
      | .error .outOfTurns _ => false
      | _ => true) = true := by decide +kernel
    rw [out] at error
    cases error
  obtain ⟨outcome, s'⟩ := result
  obtain ⟨rfl, printed⟩ := fails
  exact ⟨program, s', reads, rfl, terminates,
    (interpret_evaluates here reads accepted).2 100 2 _ s' returns terminates, printed⟩

end Session

end Lox
