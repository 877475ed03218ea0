import Lox.Proofs.Session.Atomicity
import Lox.Proofs.Session.Captures

/-!
# Closing cells

Closing the cells of all places from one on closes just these, and each takes over the value that is still
in its place; so every closure that has captured the variable goes on seeing it (`closing_transparent`).
That is so wherever cells are closed: at the end of a scope, on return from a call and when a failed run is
given up.  From then on the variable has nothing to do with the stack: it changes only by assignments of
closures that have captured it (`Leads.closed`).  Code that no compiler would emit may take a captured
variable off the stack, and then its cell cannot be closed (`made_closure_strands`).
-/

namespace Lox

namespace Machine

variable {bare : Prop} {m m' : Machine} {a : Unit}

/-- All captured variables have the values that they had. -/
def SameValues (m m' : Machine) : Prop :=
  ∀ cell < m.cells.size, ∃ v, readCell cell m = .ok v m ∧ readCell cell m' = .ok v m'

/-- Places of open cells are on the stack, so every cell has a value. -/
lemma Accounted.value (accounted : m.Accounted) {cell : Nat} (bound : cell < m.cells.size) :
    ∃ v, m.valueOf? cell = some v := by
  have there := Array.getElem?_eq_getElem bound
  generalize m.cells[cell] = content at there
  cases content with
  | opened slot =>
    have alive := accounted.alive there
    exact ⟨m.stack[slot], (valueOf?_opened there).trans (Array.getElem?_eq_getElem alive)⟩
  | closed v => exact ⟨v, valueOf?_closed there⟩

lemma Accounted.sameValues (accounted : m.Accounted) (same : ∀ cell, m'.valueOf? cell = m.valueOf? cell) :
    SameValues m m' := by
  intro cell bound
  obtain ⟨v, value⟩ := accounted.value bound
  exact ⟨v, readCell_of_valueOf? value, readCell_of_valueOf? ((same cell).trans value)⟩

/-- The cells can be parted at any place. -/
lemma partCells_isSome {l : List Nat} (last : Nat)
    (alive : ∀ i ∈ l, ∀ slot, m.slotOf i = some slot → slot < m.stack.size) :
    ∃ closing staying, m.partCells last l = some (closing, staying) := by
  induction l with
  | nil => exact ⟨[], [], rfl⟩
  | cons i l ih =>
    obtain ⟨closing, staying, parts⟩ := ih fun j there => alive j (List.mem_cons_of_mem i there)
    rw [partCells]
    cases place : m.slotOf i with
    | none => exact ⟨[], i :: l, rfl⟩
    | some slot =>
      dsimp only
      split
      · have there := Array.getElem?_eq_getElem (alive i List.mem_cons_self slot place)
        rw [there, parts]
        exact ⟨_, _, rfl⟩
      · exact ⟨[], i :: l, rfl⟩

/-- Cells that have been closed are those of places from one on, which shows in no variable. -/
lemma closeCells_ok (ordered : m.Ordered) {last : Nat} (result : Machine.closeCells last m = .ok a m') :
    m' = { m with cells := m'.cells, openCells := m'.openCells } ∧ Closes last m m' ∧
      ∀ cell, m'.valueOf? cell = m.valueOf? cell := by
  unfold Machine.closeCells at result
  split at result
  · next closing openCells parts =>
    obtain ⟨-, rfl⟩ := EStateM.Result.ok.inj result
    have closes : Closes last m { m with openCells, cells := closeAll closing m.cells } :=
      closes_of_parts ordered parts rfl
    exact ⟨rfl, closes, closes.valueOf? fun _ _ => rfl⟩
  · cases result

/-- The cells of all places from one on can be closed, which shows in no variable. -/
lemma Accounted.closeCells (accounted : m.Accounted) (ordered : m.Ordered) (last : Nat) :
    ∃ m', Machine.closeCells last m = .ok () m' ∧ SameValues m m' := by
  obtain ⟨closing, openCells, parts⟩ := partCells_isSome (m := m) (l := m.openCells) last
    fun i _ slot place => accounted.alive (slotOf_eq_some.1 place)
  have closed : Machine.closeCells last m = .ok () { m with openCells, cells := closeAll closing m.cells } := by
    rw [Machine.closeCells, parts]
  exact ⟨_, closed, accounted.sameValues (closeCells_ok ordered closed).2.2⟩

/-- The last step of a run leaves closed cells as they are. -/
lemma stop_closed {stop : Stop} (ordered : m.Ordered) (stops : m.step = .error stop m')
    (sound : ∀ defect, stop ≠ .broken defect) {cell : Nat} {v : Value}
    (closed : m.cells[cell]? = some (.closed v)) : m'.cells[cell]? = some (.closed v) := by
  rcases step_cases m with ⟨defect, broken⟩ | ⟨f, callers, i, frames, decoded, step⟩
  · exact absurd (EStateM.Result.error.inj (stops.symm.trans broken)).1 (sound defect)
  · have executes := step.symm.trans stops
    cases stop with
    | failed e =>
      rw [((exec_aborts i).aborted executes).rest]
      exact closed
    | broken defect => exact absurd rfl (sound defect)
    | finished =>
      obtain rfl := exec_finished executes
      have returns : ret (m.past f callers .ret) = .error .finished m' := executes
      rcases ret_cases (m.past f callers .ret) with ⟨defect, _, broken, -⟩ | ⟨f', callers', w, frames', top⟩
      · cases broken.symm.trans returns
      · obtain ⟨closes, -⟩ := ret_closes frames' top (ordered.of_same rfl rfl) fun defect m'' broken =>
          nomatch returns.symm.trans broken
        rw [returns] at closes
        exact closes.closed closed

/-- A machine that is given up closes its cells. -/
lemma reset_closes (ordered : m.Ordered) (closes : (m.partCells 0 m.openCells).isSome) :
    ∃ openCells, Closes 0 m { m.reset with openCells } := by
  obtain ⟨⟨closing, openCells⟩, parts⟩ := Option.isSome_iff_exists.1 closes
  have cells : m.reset.cells = closeAll closing m.cells := by
    rw [Machine.reset, parts]
    rfl
  exact ⟨openCells, closes_of_parts ordered parts cells⟩

lemma reset_valueOf? (ordered : m.Ordered) (closes : (m.partCells 0 m.openCells).isSome) (cell : Nat) :
    m.reset.valueOf? cell = m.valueOf? cell := by
  obtain ⟨openCells, closes⟩ := reset_closes ordered closes
  exact closes.valueOf? (fun slot below => absurd below (Nat.not_lt_zero slot)) cell

/-- The last step of a run leaves the variables as they are. -/
lemma Ready.stop_valueOf? {stop : Stop} (ready : Ready bare m) (ordered : m.Ordered)
    (stops : m.step = .error stop m') (sound : ∀ defect, stop ≠ .broken defect) (cell : Nat) :
    m'.valueOf? cell = m.valueOf? cell := by
  cases stop with
  | failed e => exact (ready.failed_valueOf? stops cell).2.2
  | broken defect => exact absurd rfl (sound defect)
  | finished =>
    rcases ready.reads with ⟨c, T, E, f, callers, below, σ, i, h, -, decoded, flows, step⟩ | ⟨-, _, step⟩
    · rw [step] at stops
      obtain rfl := exec_finished stops
      have returns : ret (m.past f callers .ret) = .error .finished m' := stops
      obtain ⟨m₀, -, same, closes, kept⟩ := h.ret_cells flows ordered fun defect m'' broken =>
        nomatch returns.symm.trans broken
      rw [returns] at closes kept
      exact (closes.valueOf? kept cell).trans (same cell)
    · exact nomatch step.symm.trans stops

end Machine

namespace Session

open Machine

variable {Admitted : NativeBody → Prop} {s s' s₁ : Session} {phase phase' : Phase} {bare : Prop} {cell : Nat}
    {v : Value}

/-- The next instruction is one that closes cells: the end of a scope, or a return. -/
def Closing (s : Session) : Prop :=
  ∃ f callers, s.machine.frames = f :: callers ∧
    (f.closure.prototype.chunk.instrAt? f.ip = some .closeUpvalue ∨
      f.closure.prototype.chunk.instrAt? f.ip = some .ret)

lemma Journaled.valueOf? {m m' : Machine} (journaled : Journaled m m') (cell : Nat) :
    m'.valueOf? cell = m.valueOf? cell := by
  obtain ⟨journal, rfl⟩ := journaled
  rfl

/-- A captured variable has the value it had before the step, or else the one that the step gives it. -/
lemma Reached.values (here : Reached (NativeBody.Fair bare) .running s) (goesOn : s.advance 1 = (none, s'))
    (value : s.machine.valueOf? cell = some v) :
    (∀ w, ¬ s.machine.Gives cell w) ∧ s'.machine.valueOf? cell = some v ∨
      ∃ w, s.machine.Gives cell w ∧ s'.machine.valueOf? cell = some w := by
  obtain ⟨m, journaled, step⟩ := advance_one goesOn
  have ready := here.ready_step journaled
  obtain ⟨journal, rfl⟩ := journaled
  exact ready.values (here.ordered.of_same rfl rfl) step value

/-- Where cells are closed, all variables keep their values. -/
lemma Reached.closing_sameValues (here : Reached (NativeBody.Fair bare) .running s) (closing : s.Closing)
    (goesOn : s.advance 1 = (none, s')) : SameValues s.machine s'.machine := by
  intro cell bound
  obtain ⟨v, value⟩ := (here.intact.accounted here.ordered).value bound
  refine ⟨v, readCell_of_valueOf? value, readCell_of_valueOf? ?_⟩
  rcases here.values goesOn value with ⟨-, kept⟩ | ⟨w, gives, -⟩
  · exact kept
  · obtain ⟨f, callers, frames, decoded | decoded⟩ := closing
    · exact absurd gives (not_gives frames decoded nofun nofun)
    · exact absurd gives (not_gives frames decoded nofun nofun)

/-- A run that stops has gone on until its last step. -/
lemma run_last {traced : Bool} {k : Nat} {m m' : Machine} {stop : Stop}
    (stops : m.run traced k = (some stop, m')) :
    ∃ j m₁, m.run traced j = (none, m₁) ∧ m₁.run traced 1 = (some stop, m') := by
  induction k generalizing m with
  | zero => exact nomatch (Prod.mk.inj stops).1
  | succ k ih =>
    rw [Machine.run] at stops
    split at stops
    · next m₂ step =>
      obtain ⟨j, m₁, goesOn, last⟩ := ih stops
      exact ⟨j + 1, m₁, by rw [Machine.run, step]; exact goesOn, last⟩
    · next step => exact ⟨0, m, rfl, by rw [Machine.run, step]; exact stops⟩

lemma advance_last {k : Nat} {stop : Stop} (stops : s.advance k = (some stop, s')) :
    ∃ j s₁, s.advance j = (none, s₁) ∧ s₁.advance 1 = (some stop, s') := by
  unfold advance at stops ⊢
  generalize result : s.machine.run (s.verbosity.wants .trace) k = pair at stops
  obtain ⟨stop?, m'⟩ := pair
  obtain ⟨rfl, rfl⟩ := Prod.mk.inj stops
  obtain ⟨j, m₁, goesOn, last⟩ := run_last result
  refine ⟨j, { s with machine := m₁ }, by rw [goesOn], ?_⟩
  dsimp only
  rw [last]

lemma advance_one_stops {stop : Stop} (stops : s.advance 1 = (some stop, s')) :
    ∃ m, Journaled s.machine m ∧ m.step = .error stop s'.machine := by
  refine ⟨if s.verbosity.wants .trace then s.machine.noteStep else s.machine, ?_, ?_⟩
  · split
    · exact noteStep_journaled s.machine
    · exact .refl s.machine
  · dsimp only [advance, Machine.run] at stops
    split at stops
    · exact nomatch (Prod.mk.inj stops).1
    · next step =>
      obtain ⟨same, rfl⟩ := Prod.mk.inj stops
      obtain rfl := Option.some.inj same
      exact step

/-- When a run is ended, well or not, all variables keep their values. -/
lemma Reached.finish_valueOf? (here : Reached (NativeBody.Fair bare) .running s) {stop : Stop}
    {outcome : Outcome} (stops : s.advance 1 = (some stop, s₁)) (finishes : s₁.finish stop = (outcome, s'))
    (sound : ∀ defect, outcome ≠ .defect defect) (cell : Nat) :
    s'.machine.valueOf? cell = s.machine.valueOf? cell := by
  obtain ⟨m, journaled, step⟩ := advance_one_stops stops
  have ready := here.ready_step journaled
  have keeps : Phase.running.Keeps m := journaled.keeps here.keeps
  have ordered : m.Ordered := keeps.1
  have evolving : Machine.Evolving Machine.step := inferInstance
  have evolves := evolving.evolves m
  rw [step] at evolves
  have kept : ∀ stop', stop = stop' → (∀ defect, stop' ≠ .broken defect) →
      s₁.machine.valueOf? cell = s.machine.valueOf? cell := by
    rintro _ rfl sound
    exact (ready.stop_valueOf? ordered step sound cell).trans (journaled.valueOf? cell)
  rcases finish_machine finishes sound with
    ⟨ends, -, told⟩ | ⟨error, m', ends, -, told, closes, given_up⟩
  · exact (told.valueOf? cell).trans (kept _ ends nofun)
  · have ordered' : m'.Ordered := by
      obtain ⟨journal, rfl⟩ := told
      exact (evolves.ordered ordered).of_same rfl rfl
    rw [given_up, reset_valueOf? ordered' closes]
    exact (told.valueOf? cell).trans (kept _ ends nofun)

/-! ## Closed cells -/

/-- From one state to another, the variable in a closed cell is left alone, or else the last that happens to
it is that a closure assigns to it. -/
def KeepsClosed (Admitted : NativeBody → Prop) (phase : Phase) (s : Session) (cell : Nat) (v : Value) (phase' : Phase)
    (s' : Session) : Prop :=
  s'.machine.cells[cell]? = some (.closed v) ∨
    ∃ s₁ s₂ w, Leads Admitted phase s .running s₁ ∧ s₁.machine.Sets cell w ∧ s₁.advance 1 = (none, s₂) ∧
      Leads Admitted .running s₂ phase' s' ∧ s'.machine.cells[cell]? = some (.closed w)

lemma Reached.leads (here : Reached Admitted phase s) (leads : Leads Admitted phase s phase' s') :
    Reached Admitted phase' s' := by
  induction leads with
  | refl => exact here
  | turn _ turn ih => exact ih.turn turn

/-- A step changes the variable in a closed cell only by an assignment. -/
lemma Reached.step_closed (here : Reached Admitted .running s) (goesOn : s.advance 1 = (none, s'))
    (closed : s.machine.cells[cell]? = some (.closed v)) :
    s'.machine.cells[cell]? = some (.closed v) ∨
      ∃ w, s.machine.Sets cell w ∧ s'.machine.cells[cell]? = some (.closed w) := by
  obtain ⟨m, ⟨journal, rfl⟩, step⟩ := advance_one goesOn
  exact Machine.step_closed (m := { s.machine with journal }) (here.ordered.of_same rfl rfl) step closed

/-- The end of a run leaves closed cells as they are. -/
lemma Reached.finish_closed (here : Reached Admitted .running s) {stop : Stop} {outcome : Outcome}
    (stops : s.advance 1 = (some stop, s₁)) (finishes : s₁.finish stop = (outcome, s'))
    (sound : ∀ defect, outcome ≠ .defect defect) (closed : s.machine.cells[cell]? = some (.closed v)) :
    s'.machine.cells[cell]? = some (.closed v) := by
  obtain ⟨m, ⟨journal, rfl⟩, step⟩ := advance_one_stops stops
  have ordered : { s.machine with journal }.Ordered := here.ordered.of_same rfl rfl
  have kept (whole : ∀ defect, stop ≠ .broken defect) : s₁.machine.cells[cell]? = some (.closed v) :=
    stop_closed ordered step whole closed
  rcases finish_machine finishes sound with ⟨rfl, -, journal', told⟩ |
    ⟨error, m', rfl, -, ⟨journal', rfl⟩, closes, given_up⟩
  · rw [told]
    exact kept nofun
  · have evolving : Machine.Evolving Machine.step := inferInstance
    have evolves := evolving.evolves { s.machine with journal }
    rw [step] at evolves
    have ordered' : s₁.machine.Ordered := evolves.ordered ordered
    obtain ⟨openCells, closes⟩ := reset_closes (m := { s₁.machine with journal := journal' })
      (ordered'.of_same rfl rfl) closes
    rw [given_up]
    exact closes.closed (kept nofun)

section KeepsClosed

variable {phase₁ phase₂ : Phase} {s₂ : Session}

/-- A turn that does nothing to the cell. -/
lemma KeepsClosed.same (kept : KeepsClosed Admitted phase s cell v phase₁ s₁)
    (turn : Turn Admitted phase₁ s₁ phase₂ s₂)
    (same : s₂.machine.cells[cell]? = s₁.machine.cells[cell]?) : KeepsClosed Admitted phase s cell v phase₂ s₂ := by
  rcases kept with closed | ⟨t₁, t₂, w, before, sets, step, after, closed⟩
  · exact .inl (same.trans closed)
  · exact .inr ⟨t₁, t₂, w, before, sets, step, after.turn turn, same.trans closed⟩

lemma KeepsClosed.closed (kept : KeepsClosed Admitted phase s cell v phase₁ s₁) :
    ∃ w, s₁.machine.cells[cell]? = some (.closed w) := by
  rcases kept with closed | ⟨_, _, w, -, -, -, -, closed⟩
  · exact ⟨v, closed⟩
  · exact ⟨w, closed⟩

/-- Steps of a run, one by one. -/
lemma KeepsClosed.advance (here : Reached Admitted phase s)
    (before : Leads Admitted phase s .running s₁)
    (kept : KeepsClosed Admitted phase s cell v .running s₁) {k : Nat} (goesOn : s₁.advance k = (none, s₂)) :
    KeepsClosed Admitted phase s cell v .running s₂ := by
  induction k generalizing s₂ with
  | zero =>
    obtain ⟨-, rfl⟩ := Prod.mk.inj goesOn
    exact kept
  | succ k ih =>
    obtain ⟨t, first, step⟩ := advance_add goesOn
    have there := before.turn (.advance first)
    obtain ⟨u, closed⟩ := (ih first).closed
    rcases (here.leads there).step_closed step closed with same | ⟨w, sets, given⟩
    · exact (ih first).same (.advance step) (same.trans closed.symm)
    · exact .inr ⟨t, s₂, w, there, sets, step, .refl, given⟩

lemma KeepsClosed.turn (here : Reached Admitted phase s)
    (before : Leads Admitted phase s phase₁ s₁)
    (kept : KeepsClosed Admitted phase s cell v phase₁ s₁)
    (turn : Turn Admitted phase₁ s₁ phase₂ s₂) : KeepsClosed Admitted phase s cell v phase₂ s₂ := by
  have told : ∀ {m m' : Machine}, Journaled m m' → m.cells = s₁.machine.cells →
      m'.cells[cell]? = s₁.machine.cells[cell]? := by
    rintro m _ ⟨journal, rfl⟩ same
    exact congrArg (·[cell]?) same
  cases turn with
  | native admitted => exact kept.same (.native admitted) (told (note_journaled _ _ _) rfl)
  | reject rejects =>
    obtain ⟨strings, journaled⟩ := load_rejects rejects
    exact kept.same (.reject rejects) (told journaled rfl)
  | load loads =>
    obtain ⟨p, strings, nextPrototype, -, journaled⟩ := load_idle loads (here.leads before).keeps
    exact kept.same (.load loads) (told journaled rfl)
  | advance goesOn => exact kept.advance here before goesOn
  | finish stops finishes sound =>
    obtain ⟨j, t, goesOn, last⟩ := advance_last stops
    have there := before.turn (.advance goesOn)
    have kept' := kept.advance here before goesOn
    obtain ⟨w, closed⟩ := kept'.closed
    have closed' := (here.leads there).finish_closed last finishes sound closed
    exact kept'.same (.finish last finishes sound) (closed'.trans closed.symm)
  | time => exact kept.same (.time _) rfl
  | journal => exact kept.same .journal rfl

end KeepsClosed

/-- Whatever comes of a session, the variable in a closed cell changes only by assignments of closures that
have captured it. -/
lemma Leads.closed (here : Reached Admitted phase s)
    (leads : Leads Admitted phase s phase' s')
    (closed : s.machine.cells[cell]? = some (.closed v)) : KeepsClosed Admitted phase s cell v phase' s' := by
  induction leads with
  | refl => exact .inl closed
  | turn before turn ih => exact ih.turn here before turn

/-- In every state of a session, cells of all places from any one on that are closed are just these, the others
stay open and in order, and it shows in no variable; and the variable in a closed cell is changed by nothing but
assignments of closures that have captured it.  If the functions of the host make no closures but copies and those
over functions that capture nothing, then the cells can be closed, from any place on, and ends of scopes, returns and
the ends of runs, whether or not they fail, show in no variable either. -/
theorem closing_transparent (here : Reached Admitted phase s) :
    (∀ {last m'}, closeCells last s.machine = .ok () m' →
      m' = { s.machine with cells := m'.cells, openCells := m'.openCells } ∧ Closes last s.machine m' ∧
        ∀ cell, m'.valueOf? cell = s.machine.valueOf? cell) ∧
    (∀ {cell v phase' s'}, s.machine.cells[cell]? = some (.closed v) → Leads Admitted phase s phase' s' →
      KeepsClosed Admitted phase s cell v phase' s') ∧
    ((∀ body, Admitted body → body.Fair True) →
      (∀ last, ∃ m', closeCells last s.machine = .ok () m' ∧ SameValues s.machine m') ∧
      (∀ {s'}, phase = .running → s.Closing → s.advance 1 = (none, s') → SameValues s.machine s'.machine) ∧
      ∀ {stop s₁ outcome s'}, phase = .running → s.advance 1 = (some stop, s₁) →
        s₁.finish stop = (outcome, s') → (∀ defect, outcome ≠ .defect defect) →
          SameValues s.machine s'.machine) := by
  refine ⟨closeCells_ok here.ordered, fun closed leads => leads.closed here closed, fun fair => ?_⟩
  have accounted := (here.mono fair).intact.accounted here.ordered
  refine ⟨accounted.closeCells here.ordered, ?_, ?_⟩
  · rintro s' rfl closing goesOn
    exact (here.mono fair).closing_sameValues closing goesOn
  · rintro stop s₁ outcome s' rfl stops finishes sound
    exact accounted.sameValues ((here.mono fair).finish_valueOf? stops finishes sound)

/-- A closure that has been put in a global when the call whose variable it has captured fails. -/
theorem closing_transparent_failed : ∃ s s₁ s', Reached (NativeBody.Fair True) .running s ∧
    s.machine.openCells.length = 1 ∧ s.advance 1 = (some (.failed .notCallable), s₁) ∧
    s₁.finish (.failed .notCallable) = (.runtimeError, s') ∧ SameValues s.machine s'.machine := by
  obtain ⟨s, here, one, fails, told⟩ := (Reached.start .quiet).exists_midway
    (P := fun s => s.machine.openCells.length = 1 ∧ (s.advance 1).1 = some (.failed .notCallable) ∧
      ((s.advance 1).2.finish (.failed .notCallable)).1 = .runtimeError)
    (show ((start .quiet).midway
      "var g; fun f() { var a = f; fun h() { return a; } g = h; nil(); } f();" 12).any _ = true by decide +kernel)
  obtain ⟨-, -, ends⟩ := (closing_transparent here).2.2 fun _ => id
  exact ⟨s, _, _, here, one, Prod.ext fails rfl, Prod.ext told rfl,
    ends rfl (Prod.ext fails rfl) (Prod.ext told rfl) nofun⟩

/-- With functions of the host that make any closures, the place of an open cell may be taken off the stack, and then
the cell cannot be closed. -/
theorem made_closure_strands :
    ¬ ∀ {phase s}, Reached (fun _ => True) phase s → ∀ last, ∃ m, closeCells last s.machine = .ok () m := by
  intro closes
  let code := #[Opcode.pop.toByte, Opcode.pop.toByte, Opcode.pop.toByte]
  obtain ⟨s, here, broken⟩ := exists_hosting
    (P := fun s => stop? (closeCells 0 s.machine) = some (.broken .badSlot))
    (show ((hosting (handOut (.ofCode 0 #[] code))).midway
      "\x7b var a; fun f() \x7b return a; \x7d make()(); \x7d" 8).any _ = true by decide +kernel)
  obtain ⟨m, closed⟩ := closes here 0
  cases closed.symm.trans (eq_error_of_stop? broken)

end Session

end Lox
