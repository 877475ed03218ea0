import Lox.Proofs.Session.Atomicity
import Lox.Proofs.Session.Returns
import Lox.Proofs.Session.Scripts

/-!
# Backtraces

A run that fails reports the error and then its calls, the innermost first, each with the line of the
instruction that it is at (`Frame.IsAt`): the one that has failed, and in each of the other calls the one
that has called.  The lines come from the tables of the functions, which have the line of each instruction
for all its bytes (`Prototype.Lined`).  A call that is told as a script is the one at the bottom, unless
functions of the host make closures of scripts (`made_script_traced`).
-/

namespace Lox

open Compile Machine

variable {bare named : Prop} {m m' : Machine} {f g : Frame} {callers : List Frame} {i : Instr} {o : Nat}

/-! ## Lines of calls -/

/-- The call has read an instruction of its code, or the first bytes of one, and stands behind them.  Its line is
that of all bytes of the instruction. -/
structure Frame.IsAt (f : Frame) (i : Instr) : Prop where
  read : ∃ o code, Splits f.closure.prototype.chunk 0 code ∧ (o, i) ∈ code ∧ o < f.ip ∧ f.ip ≤ o + i.size ∧
    f.closure.prototype.LineAt o i f.line

/-- Wherever control flow comes to, an instruction of the code starts. -/
lemma Compile.Compiled.among {p : Prototype} {Γ : Context} {start : List Local} {items : List Item} {k : Nat}
    {code : List (Nat × Instr)} (compiled : Compiled p Γ start items) (splits : Splits p.chunk 0 code)
    (reaches : Reaches p o k) (decoded : p.chunk.instrAt? o = some i) : (o, i) ∈ code := by
  obtain ⟨before, j, scope, after, rfl, place, decoded'⟩ := compiled.disciplined.stays reaches
  obtain rfl := Option.some.inj (decoded.symm.trans decoded')
  rw [splits.unique compiled.splits]
  refine mem_placed.2 ⟨Lox.instrs before, Lox.instrs after, ?_, by rw [place, Nat.zero_add]⟩
  rw [instrs_append]
  rfl

/-- A call of an accepted function is at the instruction that it has begun to read. -/
lemma Prototype.Accepted.isAt {k : Nat} (accepted : f.closure.prototype.Accepted)
    (reaches : Reaches f.closure.prototype o k) (decoded : f.closure.prototype.chunk.instrAt? o = some i)
    (begun : o < f.ip) (within : f.ip ≤ o + i.size) : f.IsAt i := by
  obtain ⟨Γ, start, items, compiled⟩ := accepted.compiled
  obtain ⟨source, strings, serial, p, compiles, inside⟩ := accepted
  obtain ⟨-, ⟨code, splits, lines⟩, -, -⟩ := compile_lined compiles inside
  have among := compiled.among splits reaches decoded
  obtain ⟨line, lines⟩ := lines o i among
  refine ⟨o, code, splits, among, begun, within, ?_⟩
  have last := lines (f.ip - 1 - o) (by omega)
  have place : o + (f.ip - 1 - o) = f.ip - 1 := by omega
  have same : f.line = line := by
    rw [Frame.line, ← place, last]
    rfl
  rwa [same]

/-- A call that has read an instruction is of a function with code. -/
lemma Frame.IsAt.not_bare (isAt : f.IsAt i) : ¬ f.closure.Bare := by
  obtain ⟨o, code, splits, among, -⟩ := isAt.read
  intro none
  rw [none.chunk] at splits
  generalize start : 0 = o₀ at splits
  cases splits with
  | done => cases among
  | @next _ j _ _ rest =>
    have pos := j.size_pos
    have bound : o₀ + j.size ≤ 0 := rest.le
    omega

/-! ## Reports -/

/-- The lines of reports in the journal. -/
def Machine.reported (m : Machine) : List String := m.journal.toList.filterMap Event.report?

lemma Machine.reported_note (m : Machine) (e : Event) : (m.note e).reported = m.reported ++ e.report?.toList := by
  rw [reported, note, Array.toList_push, List.filterMap_append]
  cases e <;> rfl

/-- How a call is told: with its line, and either with the name of its function or as a script. -/
def Frame.told (f : Frame) : String :=
  "[line " ++ toString f.line ++ "] in " ++
    if f.closure.prototype.name = "" then "script" else f.closure.prototype.name ++ "()"

lemma frameLine_told (f : Frame) : frameLine f = f.told := by
  unfold frameLine Frame.told
  simp only [String.isEmpty_iff]

namespace Session

variable {s s' : Session}

lemma note_reported (s : Session) (level : RecordLevel) (text : String) :
    (s.note level text).machine.reported = s.machine.reported := by
  unfold note
  split
  · exact (s.machine.reported_note _).trans (List.append_nil _)
  · rfl

lemma tell_reported (s : Session) (lines : List String) :
    (s.tell lines).machine.reported = s.machine.reported ++ lines := by
  have tells : ∀ m : Machine,
      (lines.foldl (fun m line => m.note (.reported line)) m).reported = m.reported ++ lines := by
    induction lines with
    | nil => exact fun m => (List.append_nil _).symm
    | cons line lines ih =>
      intro m
      rw [List.foldl_cons, ih, reported_note, List.append_assoc]
      rfl
  exact tells s.machine

/-- A run that fails reports the error and its calls. -/
lemma finish_reported (s : Session) (error : RuntimeError) :
    (s.finish (.failed error)).2.machine.reported = s.machine.reported ++ s.machine.report error := by
  obtain ⟨journal, same⟩ := note_journaled s .debug ("script aborted: " ++ error.message)
  have report : (s.note .debug ("script aborted: " ++ error.message)).machine.report error =
    s.machine.report error := by
    rw [same]
    rfl
  rw [← note_reported s .debug ("script aborted: " ++ error.message), ← report]
  exact tell_reported _ _

end Session

/-! ## Failed runs -/

namespace Machine

/-- A call that waits is at the instruction that has called. -/
lemma waits_at {base : Nat} (accepted : g.closure.Bare ∨ g.closure.prototype.Accepted) (waits : g.Waits base) :
    ∃ i taken, i.Calls taken ∧ g.IsAt i := by
  obtain ⟨o, i, taken, k, decoded, past, calls, -, reaches⟩ := waits
  rcases accepted with none | accepted
  · obtain rfl := Option.some.inj (decoded.symm.trans (none.instrAt? o))
    cases calls
  · have pos := i.size_pos
    exact ⟨i, taken, calls, accepted.isAt reaches decoded (by omega) past.le⟩

/-- A call stands behind the opcode of an instruction, even if the operand has not been read. -/
lemma unread_lt {e : RuntimeError} (read : e.unread ≤ i.skips) : e.unread < i.size := by
  cases i <;> simp only [Instr.skips] at read <;> simp only [Instr.size] <;> omega

/-- A step that fails leaves the calls as they were, but for the instruction that it has read: all of it, or only
the opcode if a property is of no instance. -/
lemma Seated.fails (seated : m.Seated named) (ready : Ready bare m) (waiting : Waiting m.frames) {error : RuntimeError}
    (failed : m.step = .error (.failed error) m') :
    ∃ f callers i, m.frames = f :: callers ∧ f.closure.prototype.chunk.instrAt? f.ip = some i ∧
      error.unread ≤ i.skips ∧ m'.frames = { f with ip := f.ip + i.size - error.unread } :: callers ∧
      Frame.IsAt { f with ip := f.ip + i.size - error.unread } i := by
  rcases ready.executes_or waiting with ⟨f, callers, i, executes⟩ | ⟨-, f, callers, defect, -, -, breaks⟩
  · rw [executes.step] at failed
    have aborted := (exec_aborts i).aborted failed
    have frames : m'.frames = { f with ip := f.ip + i.size - error.unread } :: callers := aborted.frames
    obtain ⟨k, reaches⟩ := executes.reaches
    rcases (executes.frames ▸ seated.calls : FromScript named (f :: callers)).accepted with none | accepted
    · obtain rfl := Option.some.inj (executes.decoded.symm.trans (none.instrAt? f.ip))
      exact (exec_goesOn (by rw [exec]; infer_instance) (by simp) failed (by simp)).elim
    · have behind := unread_lt aborted.read
      refine ⟨f, callers, i, executes.frames, executes.decoded, aborted.read, frames, ?_⟩
      exact Prototype.Accepted.isAt (f := { f with ip := f.ip + i.size - error.unread }) accepted reaches
        executes.decoded (by dsimp only; omega) (Nat.sub_le _ _)
  · cases (EStateM.Result.error.inj (failed.symm.trans breaks)).1

end Machine

lemma FromScript.forall_accepted {frames : List Frame} (calls : FromScript named frames) :
    ∀ f ∈ frames, f.closure.Bare ∨ f.closure.prototype.Accepted := by
  induction calls with
  | script script => exact List.forall_mem_singleton.2 (.inr script.accepted)
  | inner inner _ ih => exact List.forall_mem_cons.2 ⟨inner.imp_right And.right, ih⟩

/-- The calls of functions with code, and that of the script below them. -/
lemma FromScript.split {frames : List Frame} (calls : FromScript named frames)
    (whole : ∀ f ∈ frames, ¬ f.closure.Bare) :
    ∃ inner script, frames = inner ++ [script] ∧ (named → ∀ f ∈ inner, f.closure.prototype.name ≠ "") ∧
      script.closure.prototype.IsScript ∧ script.base = 0 := by
  induction calls with
  | @script f script bottom => exact ⟨[], f, rfl, fun _ => List.forall_mem_nil _, script, bottom⟩
  | @inner f callers inner _ ih =>
    obtain ⟨here, others⟩ := List.forall_mem_cons.1 whole
    obtain ⟨below, script, rfl, names, rest⟩ := ih others
    exact ⟨f :: below, script, rfl,
      fun named => List.forall_mem_cons.2 ⟨(inner.resolve_left here).1 named, names named⟩, rest⟩

namespace Session

variable {s s' : Session} {fuel : Nat} {error : RuntimeError}

/-- The calls of a run that an error has stopped, the innermost first, and the script of the run at the bottom.  The
functions of the others may be known to have names. -/
structure Traced (named : Prop) (s : Session) (error : RuntimeError) (s' : Session) (inner : List Frame)
    (script : Frame) : Prop where
  frames : s'.machine.frames = inner ++ [script]
  names : named → ∀ f ∈ inner, f.closure.prototype.name ≠ ""
  bottom : script.closure.prototype.IsScript ∧ script.closure.prototype.name = "" ∧ script.base = 0
  /-- The innermost call is at the instruction that has failed in the last step.  It stands behind all of the
  instruction, or behind its opcode if that is an access to a property of no instance. -/
  executes : ∃ k s₁ f callers i, s.advance k = (none, s₁) ∧ s₁.machine.frames = f :: callers ∧
    f.closure.prototype.chunk.instrAt? f.ip = some i ∧ s₁.advance 1 = (some (.failed error), s') ∧
    error.unread ≤ i.skips ∧ s'.machine.frames = { f with ip := f.ip + i.size - error.unread } :: callers ∧
    Frame.IsAt { f with ip := f.ip + i.size - error.unread } i
  /-- The others are at the instructions that have called, and wait for the calls above them. -/
  waits : Waiting s'.machine.frames ∧ ∀ f ∈ s'.machine.frames.tail, ∃ i taken, i.Calls taken ∧ f.IsAt i
  /-- What is reported when the run is ended. -/
  reported : (s'.finish (.failed error)).2.machine.reported =
    s'.machine.reported ++ error.message :: s'.machine.frames.map Frame.told

/-- A run that an error stops is traced. -/
lemma Reached.traced (here : Reached (NativeBody.SparesScripts named) .running s)
    (stops : s.advance fuel = (some (.failed error), s')) : ∃ inner script, Traced named s error s' inner script := by
  obtain ⟨k, s₁, goesOn, last⟩ := advance_last stops
  have here₁ := here.turn (.advance goesOn)
  obtain ⟨m, journaled, failed⟩ := advance_one_stops last
  have fair₁ : Reached (NativeBody.Fair True) .running s₁ := here₁.mono fun _ => NativeBody.SparesScripts.fair
  have ready := fair₁.ready_step journaled
  have seated : m.Seated named := @Journaled.seats _ .running _ _ journaled here₁.seats
  have same : m.frames = s₁.machine.frames := by
    obtain ⟨journal, rfl⟩ := journaled
    rfl
  have waiting : Waiting m.frames := same ▸ fair₁.waiting
  obtain ⟨f, callers, i, frames, decoded, read, frames', isAt⟩ := seated.fails ready waiting failed
  have calls : FromScript named ({ f with ip := f.ip + i.size - error.unread } :: callers) :=
    (frames ▸ seated.calls : FromScript named (f :: callers)).goto _
  have callersAt : ∀ g ∈ callers, ∃ i taken, i.Calls taken ∧ g.IsAt i := by
    intro g there
    obtain ⟨base, -, waits⟩ := (frames ▸ waiting : Waiting (f :: callers)).below there
    exact waits_at (calls.forall_accepted g (List.mem_cons_of_mem _ there)) waits
  have whole : ∀ g ∈ { f with ip := f.ip + i.size - error.unread } :: callers, ¬ g.closure.Bare := by
    refine List.forall_mem_cons.2 ⟨isAt.not_bare, fun g there => ?_⟩
    obtain ⟨i, taken, -, isAt⟩ := callersAt g there
    exact isAt.not_bare
  obtain ⟨inner, script, split, names, isScript, bottom⟩ := calls.split whole
  refine ⟨inner, script, frames'.trans split, names, ⟨isScript, isScript.name, bottom⟩,
    ⟨k, s₁, f, callers, i, goesOn, same ▸ frames, decoded, last, read, frames', isAt⟩, ⟨?_, ?_⟩, ?_⟩
  · rw [frames']
    exact (frames ▸ waiting : Waiting (f :: callers)).goto _
  · rw [frames']
    exact callersAt
  · rw [finish_reported, Machine.report, List.map_congr_left fun f _ => frameLine_told f]

/-- Every function of an accepted source has a table of lines: one for each byte of the code, the same for all bytes
of an instruction, never going down, and from one to the number of newlines in the source and one.  Every run that
an error stops reports the error and the calls, each with the line of its instruction, if the functions of the host
make no closures but copies, those without code and those over functions that capture nothing; and if all functions
that they make closures of have names, then it is just the call at the bottom that is told as a script. -/
theorem lines_traced :
    (∀ {source : String} {strings : StringTable} {serial : Nat} {p q : Prototype},
      (compile source strings serial).outcome = .ok p → Contains p q → q.Lined (lastLine source)) ∧
    ∀ {named : Prop} {s s' : Session} {fuel : Nat} {error : RuntimeError},
      Reached (NativeBody.SparesScripts named) .running s →
      s.advance fuel = (some (.failed error), s') → ∃ inner script, Traced named s error s' inner script :=
  ⟨compile_lined, Reached.traced⟩

/-- A function that calls nil, in a call in the fourth line of a source. -/
theorem lines_traced_call :
    (∃ p, (compile "fun f() \x7b\n nil();\n\x7d\nf();" .empty 0).outcome = .ok p ∧ p.Lined 4) ∧
    ∃ s s' f script, (start .quiet).load "fun f() \x7b\n nil();\n\x7d\nf();" = (true, s) ∧
      s.advance 10 = (some (.failed .notCallable), s') ∧ Traced True s .notCallable s' [f] script ∧
      (s'.finish (.failed .notCallable)).2.machine.reported =
        ["Can only call functions and classes.", "[line 2] in f()", "[line 4] in script"] := by
  refine ⟨?_, ?_⟩
  · generalize compiles : (compile _ _ _).outcome = outcome
    have accepted : outcome.isOk = true := by
      rw [← compiles]
      decide +kernel
    cases outcome with
    | error _ => cases accepted
    | ok p => exact ⟨p, rfl, lines_traced.1 compiles .self⟩
  · generalize loads : (start .quiet).load _ = loaded
    generalize stops : loaded.2.advance 10 = stopped
    have fails : loaded.1 = true ∧ stopped.1 = some (.failed .notCallable) ∧ stopped.2.machine.frames.length = 2 ∧
        (stopped.2.finish (.failed .notCallable)).2.machine.reported =
          ["Can only call functions and classes.", "[line 2] in f()", "[line 4] in script"] := by
      rw [← stops, ← loads]
      decide +kernel
    obtain ⟨_, s⟩ := loaded
    obtain ⟨_, s'⟩ := stopped
    obtain ⟨rfl, rfl, two, reported⟩ := fails
    have here : Reached (NativeBody.SparesScripts True) .running s := (Reached.start .quiet).turn (.load loads)
    obtain ⟨inner, script, traced⟩ := lines_traced.2 here stops
    have one : inner.length = 1 := by
      rw [traced.frames, List.length_append] at two
      exact Nat.succ.inj two
    obtain ⟨f, rfl⟩ := List.length_eq_one_iff.1 one
    exact ⟨s, s', f, script, rfl, stops, traced, reported⟩

/-- The script of a source, if it is accepted. -/
def scriptOf (source : String) (serial : Nat) : Prototype :=
  (compile source .empty serial).outcome.toOption.getD ⟨serial, "", 0, 0, .empty⟩

/-- With functions of the host that make any closures, one may be over another script, and then it is not only the
call at the bottom that is reported as the script. -/
theorem made_script_traced : ∃ s s' f script, Reached (fun _ => True) .running s ∧
    s.advance 5 = (some (.failed .notCallable), s') ∧ s'.machine.frames = [f, script] ∧
    (s'.finish (.failed .notCallable)).2.machine.reported =
      ["Can only call functions and classes.", "[line 1] in script", "[line 1] in script"] := by
  obtain ⟨s, here, stops, two, reported⟩ := exists_hosting
    (P := fun s => (s.advance 5).1 = some (.failed .notCallable) ∧ (s.advance 5).2.machine.frames.length = 2 ∧
      ((s.advance 5).2.finish (.failed .notCallable)).2.machine.reported =
        ["Can only call functions and classes.", "[line 1] in script", "[line 1] in script"])
    (show ((hosting (handOut (scriptOf "nil();"))).midway "make()();" 0).any _ = true by decide +kernel)
  obtain ⟨f, script, frames⟩ := List.length_eq_two.1 two
  exact ⟨s, _, f, script, here, Prod.ext stops rfl, frames, reported⟩

end Session

end Lox
