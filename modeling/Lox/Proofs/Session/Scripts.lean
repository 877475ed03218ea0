import Lox.Proofs.Compile.Lines
import Lox.Proofs.Compile.ScriptCode
import Lox.Proofs.Machine.Vacancy
import Lox.Proofs.Session.Closing
import Lox.Proofs.Session.Receivers

/-!
# The script of a run

The script of a run is the value at the bottom of the stack, and it stays there: no value and no object
comes to refer to it (`Machine.Seated`).  So the call of the script is the one at the bottom, and the
functions of all other calls have names, unless functions of the host make closures of other scripts
(`Reached.seats`).
-/

namespace Lox

open Compile Machine

/-! ## Functions of accepted sources -/

/-- The function is the script of a source that has been accepted. -/
def Prototype.IsScript (p : Prototype) : Prop :=
  ∃ source strings serial, (compile source strings serial).outcome = .ok p

/-- The closure is of a function of an accepted source, maybe of one with a name, or else it has no code. -/
def Closure.Inner (named : Prop) (w : Closure) : Prop :=
  w.Bare ∨ (named → w.prototype.name ≠ "") ∧ w.prototype.Accepted

variable {named : Prop}

lemma Prototype.IsScript.accepted {p : Prototype} (script : p.IsScript) : p.Accepted := by
  obtain ⟨source, strings, serial, compiles⟩ := script
  exact ⟨source, strings, serial, p, compiles, .self⟩

lemma Prototype.IsScript.name {p : Prototype} (script : p.IsScript) : p.name = "" := by
  obtain ⟨source, strings, serial, compiles⟩ := script
  obtain ⟨ds, -, -, Γ, v, items, L, -, -, -, -, assembles⟩ := compile_emits compiles
  exact assembles.name

/-- The functions inside a function of an accepted source have names. -/
lemma Prototype.Accepted.inside {q r : Prototype} (accepted : q.Accepted)
    (there : .prototype r ∈ q.chunk.constants) : r.name ≠ "" ∧ r.Accepted := by
  obtain ⟨source, strings, serial, p, compiles, inside⟩ := accepted
  exact ⟨compile_named compiles inside there, source, strings, serial, p, compiles,
    inside.trans (.nested there .self)⟩

/-- The sort depends on the function of a closure and what it has captured. -/
lemma Closure.inner_copied : Machine.Copied (Closure.Inner named) := by
  rintro serial serial' p captured (bare | inner)
  · exact .inl (bare.copy rfl rfl)
  · exact .inr inner

/-- The function of the host makes closures of nothing but functions without code and functions of accepted sources,
and of these maybe only such as have names. -/
def NativeBody.SparesScripts (named : Prop) (body : NativeBody) : Prop :=
  body.Makes fun p => p.Bare ∨ p.Standalone ∧ (named → p.name ≠ "")

lemma NativeBody.SparesScripts.fair {body : NativeBody} (spares : body.SparesScripts named) : body.Fair True :=
  NativeBody.Makes.mono spares fun _ may => may.symm.imp And.left fun bare => ⟨trivial, bare⟩

lemma NativeBody.SparesScripts.inner {body : NativeBody} (spares : body.SparesScripts named) :
    body.Makes fun p => ∀ serial, Closure.Inner named ⟨serial, p, #[]⟩ :=
  NativeBody.Makes.mono spares fun _ may _ => may.imp (fun bare => ⟨rfl, bare.captureCount, bare.chunk⟩)
    fun proper => ⟨proper.2, proper.1.accepted⟩

/-- The calls of a run: that of the script at the bottom of the stack, and those of functions above. -/
inductive FromScript (named : Prop) : List Frame → Prop
  | script {f : Frame} (script : f.closure.prototype.IsScript) (bottom : f.base = 0) : FromScript named [f]
  | inner {f : Frame} {callers : List Frame} (inner : f.closure.Inner named) (below : FromScript named callers) :
      FromScript named (f :: callers)

lemma FromScript.goto {f : Frame} {callers : List Frame} (calls : FromScript named (f :: callers)) (ip : Nat) :
    FromScript named ({ f with ip } :: callers) := by
  cases calls with
  | script script bottom => exact .script script bottom
  | inner inner below => exact .inner inner below

/-- The running function has been accepted, unless it has no code. -/
lemma FromScript.accepted {f : Frame} {callers : List Frame} (calls : FromScript named (f :: callers)) :
    f.closure.Bare ∨ f.closure.prototype.Accepted := by
  cases calls with
  | script script => exact .inr script.accepted
  | inner inner => exact inner.imp_right And.right

/-! ## Seated machines -/

namespace Machine

variable {bare : Prop} {m m' : Machine} {f : Frame} {callers : List Frame} {i : Instr} {a : Unit} {stop : Stop}

/-- The script is called by the call at the bottom, and else nothing but the bottom of the stack refers to it. -/
structure Seated (named : Prop) (m : Machine) : Prop where
  holds : Holds (Closure.Inner named) m.vacate
  sealed : m.Sealed
  calls : FromScript named m.frames

/-- An instruction of compiled code finds more values than it takes off, and slot zero below them. -/
lemma Executes.reach_lt (executes : m.Executes f callers i) (ready : Ready bare m) : i.reach < m.stack.size := by
  rcases ready with ⟨c, T, E, f', callers', below, σ, there, active⟩ | ⟨-, c, S, f', callers', frames, none, -⟩
  · obtain ⟨rfl, -⟩ := List.cons.inj (executes.frames.symm.trans active.frames)
    have reaches := active.calls.fits.reaches there
    obtain ⟨Γ, start, items, compiled⟩ := active.calls.fits.compiled
    obtain ⟨before, j, scope, after, split, place, decoded⟩ := compiled.disciplined.stays reaches
    obtain rfl := Option.some.inj (executes.decoded.symm.trans decoded)
    have some := compiled.disciplined.slotZero split (place ▸ reaches)
    rw [← active.memory.stack.size, List.length_append]
    exact some.trans_le (Nat.le_add_right _ _)
  · obtain ⟨rfl, -⟩ := List.cons.inj (executes.frames.symm.trans frames)
    obtain rfl := Option.some.inj (executes.decoded.symm.trans (none.instrAt? f.ip))
    exact Nat.zero_lt_of_lt (executes.zero f (executes.frames ▸ List.mem_cons_self))

/-- The script goes to no place of its own that is the bottom of the stack. -/
lemma Executes.apart (executes : m.Executes f callers i) (calls : FromScript named m.frames) : Apart f i := by
  by_cases alone : callers = []
  · subst alone
    have calls := executes.frames ▸ calls
    obtain ⟨k, reaches⟩ := executes.reaches
    cases calls with
    | script script bottom =>
      obtain ⟨source, strings, serial, compiles⟩ := script
      have shuns := compile_shuns compiles reaches executes.decoded
      obtain ⟨Γ, v, items, -, compiled⟩ := compile_compiled compiles
      have spares := compiled.spares reaches executes.decoded
      have zero : ∀ slot : UInt8, f.base + slot.toNat = 0 → slot = 0 := fun slot sum =>
        UInt8.toNat_inj.1 (Nat.eq_zero_of_add_eq_zero_left sum)
      refine ⟨fun slot same sum => ?_, fun slot same sum => ?_, fun index captures same capture there own sum => ?_⟩
      · subst same
        exact shuns (zero slot sum)
      · subst same
        exact spares (zero slot sum)
      · subst same
        obtain ⟨isLocal, index'⟩ := capture
        obtain rfl : isLocal = true := own
        obtain rfl := zero index' sum
        exact shuns there
    | inner inner below => cases below
  · obtain ⟨g, rest, rfl⟩ := List.exists_cons_of_ne_nil alone
    have above := executes.above g List.mem_cons_self
    exact apart_of_above (by omega) i

/-! ## Steps -/

section Sorts

variable {G : Closure → Prop} {next : Nat}

/-- What an instruction leaves behind where all closures are of a sort, and so are those that the code makes. -/
lemma Holds.goesOn (copied : Copied G) (holds : Holds G m) (ordered : m.Ordered)
    (frames : m.frames = { f with ip := next } :: callers) (enough : ∀ taken, i.Calls taken → taken ≤ m.stack.size)
    (made : ∀ index captures (w : Closure), i = .closure index captures →
      .prototype w.prototype ∈ f.closure.prototype.chunk.constants → m'.stack.back? = some (.closure w) → G w)
    (result : exec i m = .ok a m') : Holds G m' ∧ Passage G m.stack.size next f callers i m'.frames := by
  have stays : i ≠ .ret → m'.frames = m.frames → Passage G m.stack.size next f callers i m'.frames := by
    intro other same
    rw [same, frames]
    exact .goesOn (.inl rfl) other
  have common : i.Common → Holds G m' ∧ Passage G m.stack.size next f callers i m'.frames := by
    intro common
    have keeper : Keeper G (fun _ => True) fun m => Holds G m ∧ Classes (fun _ => True) m :=
      holds_keeper copied trivial
    have done := exec_common keeper ⟨holds, classes_any m⟩ common frames enough
    rw [result] at done
    exact ⟨done.1.1, done.2⟩
  cases i with
  | closure index captures =>
    obtain ⟨w, openCells, cells, nextClosure, rfl, constant, -, closed⟩ := closure_made frames ordered result
    refine ⟨{ holds with stack := fun v there => ?_, cells := fun v there => holds.cells v (closed v there) },
      stays (by simp) rfl⟩
    rcases Array.mem_push.1 there with before | rfl
    · exact holds.stack v before
    · exact made index captures w rfl (Array.mem_of_getElem? constant) (Array.back?_push ..)
  | inherit =>
    obtain ⟨c, r, t, -, -, found, rfl⟩ := inherit_ok result
    refine ⟨holds.pop.setMethods c.serial fun u old x w known => ?_, stays (by simp) rfl⟩
    rw [Table.find?_addAll] at known
    rcases Option.or_eq_some_iff.1 known with own | ⟨-, before⟩
    · exact holds.methods t (Array.mem_of_getElem? found) x w own
    · exact holds.methods u old x w before
  | method index =>
    obtain ⟨w, c, top, -, rfl⟩ := method_ok frames result
    refine ⟨holds.pop.setMethods c.serial fun u old x w' known => ?_, stays (by simp) rfl⟩
    rw [Table.find?_insert] at known
    split at known
    · exact Option.some.inj known ▸ holds.stack _ (Array.mem_of_back? top)
    · exact holds.methods u old x w' known
  | _ => exact common trivial

/-- What an instruction leaves behind that stops the run. -/
lemma Holds.stops (copied : Copied G) (holds : Holds G m)
    (frames : m.frames = { f with ip := next } :: callers) (enough : ∀ taken, i.Calls taken → taken ≤ m.stack.size)
    (result : exec i m = .error stop m') (sound : ∀ defect, stop ≠ .broken defect) : Holds G m' := by
  have common : i.Common → Holds G m' := by
    intro common
    have keeper : Keeper G (fun _ => True) fun m => Holds G m ∧ Classes (fun _ => True) m :=
      holds_keeper copied trivial
    have done := exec_common keeper ⟨holds, classes_any m⟩ common frames enough
    rw [result] at done
    exact done.1
  cases i with
  | closure => exact (exec_goesOn (by rw [exec]; infer_instance) (by simp) result sound).elim
  | method => exact (exec_goesOn (by rw [exec]; infer_instance) (by simp) result sound).elim
  | inherit =>
    obtain rfl := exec_inherit_error result sound
    exact holds
  | _ => exact common trivial

end Sorts

section Seated

/-- The instruction does not go to the bottom of the stack. -/
lemma Seated.unaware (seated : m.Seated named) (executes : m.Executes f callers i) (ready : Ready bare m) :
    Unaware (exec i) (m.past f callers i) := by
  have above : callers ≠ [] → f.base ≠ 0 := fun some => by
    obtain ⟨g, rest, rfl⟩ := List.exists_cons_of_ne_nil some
    have above := executes.above g List.mem_cons_self
    omega
  have apart := executes.apart seated.calls
  exact exec_unaware (m := m.past f callers i) rfl ⟨apart.fetched, apart.assigned, apart.captured⟩
    (executes.reach_lt ready) above seated.sealed

/-- A step leaves the script where it is. -/
theorem Seated.step (seated : m.Seated named) (ready : Ready bare m) (ordered : m.Ordered) (waiting : Waiting m.frames)
    (result : m.step = .ok a m') : m'.Seated named := by
  have ready' : Ready bare m' := by
    have yields := step_yields ready ordered
    rwa [result] at yields
  rcases ready.executes_or waiting with ⟨f, callers, i, executes⟩ | ⟨-, f, callers, defect, -, -, breaks⟩
  · rw [executes.step] at result
    obtain ⟨same, sealed⟩ := (seated.unaware executes ready).goesOn result
    have calls := executes.frames ▸ seated.calls
    have made : ∀ index captures (w : Closure), i = .closure index captures →
        .prototype w.prototype ∈ f.closure.prototype.chunk.constants → m'.vacate.stack.back? = some (.closure w) →
          w.Inner named := by
      rintro index captures w - there -
      rcases calls.accepted with none | accepted
      · rw [none.chunk] at there
        exact absurd there (Array.not_mem_empty _)
      · exact .inr ⟨fun _ => (accepted.inside there).1, (accepted.inside there).2⟩
    obtain ⟨holds, passage⟩ := Holds.goesOn (m := (m.past f callers i).vacate) Closure.inner_copied
      (seated.holds.of_same rfl rfl rfl rfl rfl rfl rfl) (ordered.of_same rfl rfl) rfl
      (fun taken calls => by rw [size_vacate]; exact executes.calls_le calls) made same
    refine ⟨holds, sealed, ?_⟩
    have passage : Passage _ _ _ f callers i m'.frames := passage
    generalize frames : m'.frames = after at passage
    cases passage with
    | goesOn => exact calls.goto _
    | enters _ _ inner => exact .inner inner (calls.goto _)
    | returns =>
      cases calls with
      | script =>
        rcases ready' with ⟨_, _, _, g, rest, _, _, -, active⟩ | ⟨-, _, _, g, rest, frames', -⟩
        · cases frames.symm.trans active.frames
        · cases frames.symm.trans frames'
      | inner _ below => exact below
  · cases breaks.symm.trans result

/-- What is left when a step has stopped the run. -/
lemma Seated.stops (seated : m.Seated named) (ready : Ready bare m) (waiting : Waiting m.frames)
    (result : m.step = .error stop m') (sound : ∀ defect, stop ≠ .broken defect) :
    Holds (Closure.Inner named) m'.vacate ∧ m'.Sealed := by
  rcases ready.executes_or waiting with ⟨f, callers, i, executes⟩ | ⟨-, f, callers, defect, -, -, breaks⟩
  · rw [executes.step] at result
    obtain ⟨same, sealed⟩ := (seated.unaware executes ready).stops result sound
    refine ⟨?_, sealed⟩
    exact Holds.stops (m := (m.past f callers i).vacate) Closure.inner_copied
      (seated.holds.of_same rfl rfl rfl rfl rfl rfl rfl) rfl
      (fun taken calls => by rw [size_vacate]; exact executes.calls_le calls) same sound
  · exact absurd (EStateM.Result.error.inj (result.symm.trans breaks)).1 (sound defect)

/-- A machine that is given up has the same left, whatever is at the bottom of the stack. -/
lemma Holds.reset (holds : Holds (Closure.Inner named) m.vacate) (sealed : m.Sealed) :
    Holds (Closure.Inner named) m.reset := by
  have parted := partCells_vacate sealed 0 m.openCells
  have emptied : ∀ (m : Machine), m.stack = #[] → ∀ v ∈ m.stack, v.All (Closure.Inner named) := fun m empty v there =>
    absurd (empty ▸ there) (Array.not_mem_empty v)
  cases parts : m.partCells 0 m.openCells with
  | none =>
    have cells : m.reset.cells = m.cells := by
      rw [Machine.reset, parts]
      rfl
    exact { holds with stack := emptied m.reset rfl, cells := cells ▸ holds.cells }
  | some pair =>
    obtain ⟨closing, openCells⟩ := pair
    have cells : m.reset.cells = closeAll closing m.cells := by
      rw [Machine.reset, parts]
      rfl
    have closed := holds.close (parted.trans parts)
    exact { holds with stack := emptied m.reset rfl, cells := cells ▸ closed.cells }

/-- What is at the bottom has nothing to do with the journal and the clock. -/
lemma Seated.aside (seated : m.Seated named) (journal : Array Event) (now : Float) :
    { m with journal, now }.Seated named where
  holds := seated.holds.of_same rfl rfl rfl rfl rfl rfl rfl
  sealed := seated.sealed
  calls := seated.calls

end Seated

end Machine

/-! ## Sessions -/

/-- At rest, all functions in the machine are of the sort, and in a run all but the script at the bottom. -/
def Phase.Seats (named : Prop) : Phase → Machine → Prop
  | .resting, m => Holds (Closure.Inner named) m
  | .running, m => m.Seated named

namespace Session

variable {bare : Prop} {phase : Phase} {s s' : Session} {m m' : Machine}

lemma Journaled.seats (journaled : Journaled m m') (seats : phase.Seats named m) : phase.Seats named m' := by
  obtain ⟨journal, rfl⟩ := journaled
  cases phase with
  | resting => exact Holds.of_same seats rfl rfl rfl rfl rfl rfl rfl
  | running => exact Seated.aside seats journal m.now

/-- A function of the host becomes a global. -/
lemma defineNative_holds {G : Closure → Prop} (holds : Holds G m) (name : String) (arity : UInt8)
    {body : NativeBody} (makes : body.Makes fun p => ∀ serial, G ⟨serial, p, #[]⟩) (strings : StringTable) :
    let (f, m') := { m with strings }.newNative name arity body
    Holds G { m' with globals := m'.globals.insert name f } := by
  have renamed : Holds G { m with strings } := holds.of_same rfl rfl rfl rfl rfl rfl rfl
  exact (renamed.newNative makes).setGlobal name (v := .native ⟨m.natives.size, name, arity⟩) trivial

lemma start_seats (verbosity : Verbosity) : Phase.resting.Seats named (start verbosity).machine :=
  @Journaled.seats _ .resting _ _ (note_journaled _ _ _) (defineNative_holds (holds_empty _) _ 0 clock_makes _)

/-- The script is at the bottom of the stack when it is called. -/
lemma loaded_seated (idle : m.Idle) (holds : Holds (Closure.Inner named) m) {p : Prototype} (script : p.IsScript)
    (strings : StringTable) (nextPrototype : Nat) : (loaded m p strings nextPrototype).Seated named := by
  have bottom : (loaded m p strings nextPrototype).vacate.stack = #[.nil] := by
    unfold vacate loaded
    rw [idle.stack]
    rfl
  refine ⟨{ holds with stack := fun v there => ?_ }, fun there => ?_, ?_⟩
  · rw [bottom] at there
    obtain rfl := Array.mem_singleton.1 there
    trivial
  · obtain ⟨v, same⟩ := idle.cells _ there
    cases same
  · rw [loaded, idle.frames]
    refine .script script ?_
    rw [idle.stack]
    rfl

/-- In every state of a session, all functions in the machine come from accepted sources, and the script that is
running is at the bottom of the stack.  All others have names if those of the host's closures have. -/
theorem Reached.seats (here : Reached (NativeBody.SparesScripts named) phase s) : phase.Seats named s.machine := by
  refine @Reached.invariant _ _ _ (fun phase s => phase.Seats named s.machine) here start_seats
    fun {phase s phase' s'} spares seats turn => ?_
  have here : Reached (NativeBody.Fair True) phase s := spares.mono fun _ => NativeBody.SparesScripts.fair
  have known : ∀ {fuel stop? s₁}, phase = .running → s.advance fuel = (stop?, s₁) →
      After (fun m => (Phase.running.Keeps m ∧ Ready True m) ∧ Waiting m.frames ∧ m.Seated named) stop? s₁.machine := by
    rintro fuel stop? s₁ rfl runs
    exact here.advance_waiting (fun same seated => @Journaled.seats _ .running _ _ same seated)
      (fun ready ordered waiting seated step => seated.step ready ordered waiting step) seats runs
  cases turn with
  | native admitted =>
    exact @Journaled.seats _ .resting _ _ (note_journaled _ _ _) (defineNative_holds seats _ _ admitted.inner _)
  | reject rejects =>
    obtain ⟨strings, same⟩ := load_rejects rejects
    exact @Journaled.seats _ .resting _ _ same (Holds.of_same seats rfl rfl rfl rfl rfl rfl rfl)
  | load loads =>
    have idle : s.machine.Idle := here.keeps
    obtain ⟨p, strings, nextPrototype, compiles, same⟩ := load_idle loads idle
    exact @Journaled.seats _ .running _ _ same (loaded_seated idle seats ⟨_, _, _, compiles⟩ strings nextPrototype)
  | advance goesOn => exact (known rfl goesOn).2.2
  | @finish _ s₁ _ fuel stop outcome stops finishes sound =>
    obtain ⟨m, ⟨⟨keeps, ready⟩, waiting, seated⟩, step⟩ := known rfl stops
    have left : (∀ defect, stop ≠ .broken defect) → Holds (Closure.Inner named) s₁.machine.vacate ∧ s₁.machine.Sealed :=
      seated.stops ready waiting step
    rcases finish_machine finishes sound with ⟨rfl, -, told⟩ | ⟨error, m', rfl, -, told, closes, given_up⟩
    · have evolving : Evolving Machine.step := inferInstance
      have ends := evolving.ends m keeps.1 keeps.2
      rw [step] at ends
      have idle : s₁.machine.Idle := ends
      have empty : s₁.machine.vacate.stack = s₁.machine.stack := by
        show s₁.machine.stack.setIfInBounds 0 .nil = _
        rw [idle.stack]
        rfl
      have holds : Holds (Closure.Inner named) s₁.machine :=
        (left (by simp)).1.of_same empty.symm rfl rfl rfl rfl rfl rfl
      exact @Journaled.seats _ .resting _ _ told holds
    · obtain ⟨holds, sealed⟩ := left (by simp)
      obtain ⟨journal, rfl⟩ := told
      show Holds _ s'.machine
      rw [given_up]
      exact Holds.reset (m := { s₁.machine with journal }) (holds.of_same rfl rfl rfl rfl rfl rfl rfl) sealed
  | time now =>
    cases phase with
    | resting => exact Holds.of_same seats rfl rfl rfl rfl rfl rfl rfl
    | running => exact Seated.aside seats s.machine.journal now
  | journal => exact Journaled.seats ⟨#[], rfl⟩ seats

end Session

end Lox
