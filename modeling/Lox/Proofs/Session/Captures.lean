import Lox.Proofs.Session.Safety

/-!
# Captured variables in a session

The open cells are listed in the order of their places, each of which is on the stack, and whatever
closure there is has as many captures as its function says (`cells_accounted`).  A closed cell is never
opened again.  The places and the numbers of captures may be wrong if functions of the host make closures of
whatever they like (`made_closure_unaccounted`).
-/

namespace Lox

open Machine

/-! ## What there is -/

/-- The values that the machine holds, with what belongs to objects. -/
inductive Machine.Stores (m : Machine) : Value → Prop where
  | stack {v} (there : v ∈ m.stack) : m.Stores v
  | global {x v} (found : m.globals.find? x = some v) : m.Stores v
  | field {t x v} (there : t ∈ m.fields) (found : t.find? x = some v) : m.Stores v
  | method {t x w} (there : t ∈ m.methods) (found : t.find? x = some w) : m.Stores (.closure w)
  | cell {v} (there : .closed v ∈ m.cells) : m.Stores v
  | receiver {serial v w} (bound : m.Stores (.bound serial v w)) : m.Stores v
  | boundMethod {serial v w} (bound : m.Stores (.bound serial v w)) : m.Stores (.closure w)

/-- What is known of open cells. -/
structure Machine.Listed (m : Machine) : Prop where
  /-- Exactly the open cells are listed. -/
  listed : ∀ i, i ∈ m.openCells ↔ ∃ slot, m.cells[i]? = some (.opened slot)
  once : m.openCells.Nodup
  /-- From the end of the list on, the places go up. -/
  increasing : m.openCells.reverse.Pairwise fun i j =>
    ∀ s t, m.cells[i]? = some (.opened s) → m.cells[j]? = some (.opened t) → s < t

/-- What is known of cells and captures. -/
structure Machine.Accounted (m : Machine) : Prop extends m.Listed where
  alive : ∀ {i slot : Nat}, m.cells[i]? = some (.opened slot) → slot < m.stack.size
  captures : ∀ w, m.Stores (.closure w) →
    w.captured.size = w.prototype.captureCount ∧ ∀ cell ∈ w.captured, cell < m.cells.size

variable {bare : Prop} {c : Census} {S : List Slot} {m m' : Machine}

/-- In a memory that is in order, all that there is refers to what there is. -/
lemma Machine.Memory.stores (h : Memory bare c S m) {v : Value} (there : m.Stores v) :
    v.Sound bare c := by
  induction there with
  | stack there => exact h.stack.sound there
  | global found => exact h.objects.globals _ _ found
  | field there found => exact h.objects.fields _ there _ _ found
  | method there found => exact h.objects.methods _ there _ _ found
  | cell there =>
    obtain ⟨i, closed⟩ := Array.getElem?_of_mem there
    obtain ⟨k, known⟩ := h.cells.kind closed
    exact (h.cells.closed closed known).2
  | receiver _ ih => exact ih.1
  | boundMethod _ ih => exact ih.2

lemma Machine.Ordered.listed (ordered : m.Ordered) : m.Listed := by
  have listed : ∀ i, i ∈ m.openCells ↔ ∃ slot, m.cells[i]? = some (.opened slot) := by
    intro i
    rw [ordered.opened i]
    exact exists_congr fun slot => slotOf_eq_some
  have decreasing : m.openCells.Pairwise fun i j =>
      ∀ s t, m.cells[i]? = some (.opened s) → m.cells[j]? = some (.opened t) → t < s :=
    ordered.decreasing.imp fun lower s t here there =>
      lower s t (slotOf_eq_some.2 here) (slotOf_eq_some.2 there)
  refine ⟨listed, ?_, ?_⟩
  · refine decreasing.imp_of_mem fun {i j} there _ lower same => ?_
    obtain ⟨slot, opened⟩ := (listed i).1 there
    exact Nat.lt_irrefl slot (lower slot slot opened (same ▸ opened))
  · rw [List.pairwise_reverse]
    exact decreasing.imp fun lower s t here there => lower t s there here

lemma Machine.Intact.accounted (intact : Intact bare m) (ordered : m.Ordered) : m.Accounted := by
  obtain ⟨c, S, memory⟩ := intact
  refine ⟨ordered.listed, fun {i slot} opened => ?_, fun w there => ?_⟩
  · obtain ⟨k, known⟩ := memory.cells.kind opened
    rw [← memory.stack.size]
    exact fromBottom?_lt (memory.cells.opened opened known)
  · rw [← memory.cells.size]
    exact Closure.Sound.captures (memory.stores there)

namespace Session

variable {Admitted : NativeBody → Prop} {phase phase' : Phase} {s s' : Session}

/-! ## Evolution -/

lemma Journaled.evolves (journaled : Journaled m m') : Evolves m m' := by
  obtain ⟨journal, rfl⟩ := journaled
  exact .of_same rfl rfl

/-- A machine that is given up closes cells. -/
lemma reset_evolves (closes : (m.partCells 0 m.openCells).isSome) : Evolves m m.reset := by
  obtain ⟨⟨closing, openCells⟩, parts⟩ := Option.isSome_iff_exists.1 closes
  have cells : m.reset.cells = closeAll closing m.cells := by
    rw [Machine.reset, parts]
    rfl
  have evolves := @close_evolves m m { m with openCells, cells := closeAll closing m.cells } 0
    closing rfl parts rfl
  refine ⟨?_, fun closed => ?_, fun ordered => (reset_idle ordered closes).ordered⟩
  · rw [cells]
    exact evolves.grows
  · rw [cells]
    exact evolves.closed closed

lemma step_evolves {m₀ : Machine} {stop? : Option Stop}
    (after : After (fun m => Evolves m₀ m) stop? m) : Evolves m₀ m := by
  cases stop? with
  | none => exact after
  | some stop =>
    obtain ⟨m', evolves, step⟩ := after
    have evolving : Machine.Evolving Machine.step := inferInstance
    have further := evolving.evolves m'
    rw [step] at further
    exact evolves.trans further

/-- The cells evolve while a run goes on. -/
lemma advance_evolves {fuel : Nat} {stop? : Option Stop} (runs : s.advance fuel = (stop?, s')) :
    Evolves s.machine s'.machine := by
  refine step_evolves (advance_stops (fun m m' journaled evolves => ?_) (fun m m' evolves step => ?_)
    (.refl _) runs)
  · exact evolves.trans journaled.evolves
  · have evolving : Machine.Evolving Machine.step := inferInstance
    have further := evolving.evolves m
    rw [step] at further
    exact evolves.trans further

lemma Turn.evolves (turn : Turn Admitted phase s phase' s') (keeps : phase.Keeps s.machine) :
    Evolves s.machine s'.machine := by
  cases turn with
  | native admitted =>
    refine .trans ?_ (note_journaled _ _ _).evolves
    exact .of_same rfl rfl
  | reject rejects =>
    obtain ⟨strings, journaled⟩ := load_rejects rejects
    refine .trans ?_ journaled.evolves
    exact .of_same rfl rfl
  | load loads =>
    obtain ⟨p, strings, nextPrototype, -, journaled⟩ := load_idle loads keeps
    refine .trans ?_ journaled.evolves
    exact .of_same rfl rfl
  | advance goesOn => exact advance_evolves goesOn
  | finish stops finishes sound =>
    refine (advance_evolves stops).trans ?_
    rcases finish_machine finishes sound with
      ⟨-, -, journaled⟩ | ⟨error, m', -, -, journaled, closes, given_up⟩
    · exact journaled.evolves
    · rw [given_up]
      exact journaled.evolves.trans (reset_evolves closes)
  | time | journal => exact .of_same rfl rfl

/-- Whatever comes of a session, its cells evolve. -/
lemma Leads.evolves (leads : Leads Admitted phase s phase' s') (keeps : phase.Keeps s.machine) :
    Evolves s.machine s'.machine ∧ phase'.Keeps s'.machine := by
  induction leads with
  | refl => exact ⟨.refl _, keeps⟩
  | turn _ turn ih => exact ⟨ih.1.trans (turn.evolves ih.2), turn.keeps ih.2⟩

/-! ## Captured variables -/

lemma Reached.intact (here : Reached (NativeBody.Fair bare) phase s) : Intact bare s.machine := by
  have fit := here.fit
  cases phase with
  | resting =>
    obtain ⟨c, memory⟩ := fit
    exact ⟨c, [], memory⟩
  | running => exact Ready.intact fit

lemma Reached.ordered (here : Reached Admitted phase s) : s.machine.Ordered := by
  have keeps := here.keeps
  cases phase with
  | resting => exact Idle.ordered keeps
  | running => exact keeps.1

/-- In every state of a session, between runs or between two steps of a run, the open cells are listed in order; and
from there on no cell is taken away, and none that is closed is opened again.  If the functions of the host make no
closures but copies and those over functions that capture nothing, then the places of open cells are on the stack,
and all captures are accounted for. -/
theorem cells_accounted (here : Reached Admitted phase s) :
    s.machine.Listed ∧
      (∀ {phase' s'}, Leads Admitted phase s phase' s' →
        s.machine.cells.size ≤ s'.machine.cells.size ∧
          ∀ {i : Nat} {v}, s.machine.cells[i]? = some (.closed v) →
            ∃ w, s'.machine.cells[i]? = some (.closed w)) ∧
      ((∀ body, Admitted body → body.Fair True) → s.machine.Accounted) := by
  refine ⟨here.ordered.listed, fun leads => ?_, fun fair => (here.mono fair).intact.accounted here.ordered⟩
  obtain ⟨evolves, -⟩ := leads.evolves here.keeps
  exact ⟨evolves.grows, evolves.closed⟩

/-- A run in the middle of a function, where a closure has captured two of its variables. -/
theorem cells_accounted_open :
    ∃ s₁ s₂, (start .quiet).load
        "fun f(a) \x7b var b; fun g() \x7b b = a; \x7d g(); \x7d f(f);" = (true, s₁) ∧
      s₁.advance 8 = (none, s₂) ∧ s₂.machine.openCells.length = 2 ∧ s₂.machine.Accounted := by
  generalize loads : (start .quiet).load _ = loaded
  have accepted : loaded.1 = true := by
    rw [← loads]
    decide +kernel
  obtain ⟨_, s₁⟩ := loaded
  obtain rfl := accepted
  generalize goesOn : s₁.advance 8 = advanced
  have running : advanced.1 = none ∧ advanced.2.machine.openCells.length = 2 := by
    rw [← goesOn, show s₁ = ((start .quiet).load _).2 from (congrArg Prod.snd loads).symm]
    decide +kernel
  obtain ⟨_, s₂⟩ := advanced
  obtain ⟨rfl, two⟩ := running
  have here : Reached (NativeBody.Fair True) .running s₂ :=
    ((Reached.start .quiet).turn (.load loads)).turn (.advance goesOn)
  exact ⟨s₁, s₂, rfl, goesOn, two, (cells_accounted here).2.2 fun _ => id⟩

/-- The value is a closure with fewer captures than its function says. -/
def fallsShort : Value → Bool
  | .closure w => w.captured.size < w.prototype.captureCount
  | _ => false

/-- With functions of the host that make any closures, there may be one with fewer captures than its function says. -/
theorem made_closure_unaccounted : ¬ ∀ {phase s}, Reached (fun _ => True) phase s → s.machine.Accounted := by
  intro accounted
  obtain ⟨s, here, test⟩ := exists_hosting (P := fun s => s.machine.stack.back?.any fallsShort = true)
    (show ((hosting (handOut (.ofCode 1 #[] #[]))).midway "make();" 2).any _ = true by decide +kernel)
  obtain ⟨v, top, short⟩ := (Option.any_eq_true _ _).1 test
  cases v with
  | closure w =>
    have captures := ((accounted here).captures w (.stack (Array.mem_of_back? top))).1
    exact Nat.lt_irrefl _ (captures ▸ of_decide_eq_true short)
  | _ => cases short

end Session

end Lox
