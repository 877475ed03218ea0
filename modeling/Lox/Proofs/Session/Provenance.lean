import Lox.Proofs.Session.Construction
import Lox.Proofs.Session.Inheritance
import Lox.Proofs.Session.Scripts

/-!
# Where closures come from

Closures with captures are made by one instruction only, so what holds of all closures in a state of a session, and of
those that are made later, holds of all closures in all later states, those of calls included (`Leads.everywhere`).
What holds of a closure must hold of its copies, which functions of the host may make.
-/

namespace Lox

namespace Machine

variable {G : Closure → Prop} {m m' : Machine} {f : Frame} {callers : List Frame} {i : Instr} {a : Unit} {stop : Stop}

/-- All closures in a machine are of a sort, and those of its calls are, too. -/
structure Everywhere (G : Closure → Prop) (m : Machine) : Prop extends Holds G m where
  calls : ∀ f ∈ m.frames, G f.closure

/-- The step makes a closure in a call. -/
def Encloses (m m' : Machine) (f : Frame) (captures : List Capture) (w : Closure) : Prop :=
  ∃ callers index, m.frames = f :: callers ∧
    f.closure.prototype.chunk.instrAt? f.ip = some (.closure index captures) ∧ m'.stack.back? = some (.closure w)

lemma Everywhere.aside (every : Everywhere G m) (journal : Array Event) (now : Float) :
    Everywhere G { m with journal, now } where
  toHolds := every.toHolds.of_same rfl rfl rfl rfl rfl rfl rfl
  calls := every.calls

/-- A step leaves closures of a sort behind if the one that it makes is of that sort. -/
lemma Everywhere.step (copied : Copied G) (every : Everywhere G m) (executes : m.Executes f callers i)
    (ordered : m.Ordered) (made : ∀ captures w, m.Encloses m' f captures w → G f.closure → G w)
    (result : m.step = .ok a m') : Everywhere G m' := by
  rw [executes.step] at result
  obtain ⟨here, others⟩ := List.forall_mem_cons.1 (executes.frames ▸ every.calls)
  obtain ⟨holds, passage⟩ := Holds.goesOn (m := m.past f callers i) copied
    (every.toHolds.of_same rfl rfl rfl rfl rfl rfl rfl) (ordered.of_same rfl rfl) rfl
    (fun _ calls => executes.calls_le calls)
    (fun index captures w same _ top =>
      made captures w ⟨callers, index, executes.frames, same ▸ executes.decoded, top⟩ here)
    result
  exact ⟨holds, passage.forall here others⟩

/-- What is left when a step has stopped the run. -/
lemma Everywhere.stops (copied : Copied G) (every : Everywhere G m) (executes : m.Executes f callers i)
    (result : m.step = .error stop m') (sound : ∀ defect, stop ≠ .broken defect) : Holds G m' := by
  rw [executes.step] at result
  exact Holds.stops (m := m.past f callers i) copied (every.toHolds.of_same rfl rfl rfl rfl rfl rfl rfl) rfl
    (fun _ calls => executes.calls_le calls) result sound

/-- A machine that is given up has no other closures than before. -/
lemma Holds.given_up (holds : Holds G m) (closes : (m.partCells 0 m.openCells).isSome) : Everywhere G m.reset := by
  obtain ⟨⟨closing, openCells⟩, parts⟩ := Option.isSome_iff_exists.1 closes
  have cells : m.reset.cells = closeAll closing m.cells := by
    rw [Machine.reset, parts]
    rfl
  have closed := holds.close parts
  exact {
    holds with
    stack := fun _ there => absurd there (Array.not_mem_empty _)
    cells := cells ▸ closed.cells
    calls := List.forall_mem_nil _ }

end Machine

namespace Session

open Machine

variable {Admitted : NativeBody → Prop} {G : Closure → Prop} {phase phase' phase'' : Phase} {s s' s'' : Session}

lemma Leads.trans (first : Leads Admitted phase s phase' s') (second : Leads Admitted phase' s' phase'' s'') :
    Leads Admitted phase s phase'' s'' := by
  induction second with
  | refl => exact first
  | turn _ turn ih => exact ih.turn turn

lemma Journaled.holds {m m' : Machine} (journaled : Journaled m m') (holds : Holds G m) : Holds G m' := by
  obtain ⟨journal, rfl⟩ := journaled
  exact holds.of_same rfl rfl rfl rfl rfl rfl rfl

/-- Between two runs there are no calls. -/
lemma everywhere_resting (idle : s.machine.Idle) (holds : Holds G s.machine) : Everywhere G s.machine where
  toHolds := holds
  calls _ there := absurd (idle.frames ▸ there) List.not_mem_nil

/-- A step of a run leaves closures of a sort behind if the one that it makes is of that sort. -/
lemma Reached.everywhere_step {bare : Prop} (copied : Copied G) (here : Reached (NativeBody.Fair bare) .running s)
    (every : Everywhere G s.machine) (goesOn : s.advance 1 = (none, s'))
    (made : ∀ f captures w, s.machine.Encloses s'.machine f captures w → G f.closure → G w) :
    Everywhere G s'.machine := by
  obtain ⟨m, journaled, step⟩ := advance_one goesOn
  rcases here.executes_or journaled with ⟨f, callers, i, executes⟩ | ⟨-, f, callers, defect, -, -, breaks⟩
  · obtain ⟨journal, rfl⟩ := journaled
    exact (every.aside journal s.machine.now).step copied executes (here.ordered.of_same rfl rfl) (made f) step
  · cases breaks.symm.trans step

/-- The end of a run leaves closures of a sort behind. -/
lemma Reached.everywhere_finish {bare : Prop} {s₁ : Session} {stop : Stop} {outcome : Outcome} (copied : Copied G)
    (here : Reached (NativeBody.Fair bare) .running s) (every : Everywhere G s.machine)
    (stops : s.advance 1 = (some stop, s₁)) (finishes : s₁.finish stop = (outcome, s'))
    (sound : ∀ defect, outcome ≠ .defect defect) : Everywhere G s'.machine := by
  have idle : s'.machine.Idle := (here.turn (.finish stops finishes sound)).keeps
  obtain ⟨m, journaled, step⟩ := advance_one_stops stops
  have left : (∀ defect, stop ≠ .broken defect) → Holds G s₁.machine := by
    intro whole
    rcases here.executes_or journaled with ⟨f, callers, i, executes⟩ | ⟨-, f, callers, defect, -, -, breaks⟩
    · obtain ⟨journal, rfl⟩ := journaled
      exact (every.aside journal s.machine.now).stops copied executes step whole
    · exact absurd (EStateM.Result.error.inj (step.symm.trans breaks)).1 (whole defect)
  rcases finish_machine finishes sound with ⟨rfl, -, ⟨journal, told⟩⟩ |
    ⟨error, m', rfl, -, ⟨journal, rfl⟩, closes, given_up⟩
  · refine everywhere_resting idle ?_
    rw [told]
    exact (left nofun).of_same rfl rfl rfl rfl rfl rfl rfl
  · rw [given_up]
    exact Holds.given_up (m := { s₁.machine with journal }) ((left nofun).of_same rfl rfl rfl rfl rfl rfl rfl) closes

/-- If all closures in a state of a session are of a sort, and all that are made later by code, then so are all closures
in all later states. -/
theorem Leads.everywhere (copied : Copied G) (empty : ∀ serial p, G ⟨serial, p, #[]⟩)
    (fair : ∀ body, Admitted body → body.Fair True) (here : Reached Admitted phase s)
    (every : Everywhere G s.machine) (leads : Leads Admitted phase s phase' s')
    (made : ∀ {s₁ s₂ f captures w}, Leads Admitted phase s .running s₁ → s₁.advance 1 = (none, s₂) →
      s₁.machine.Encloses s₂.machine f captures w → G f.closure → G w) : Everywhere G s'.machine := by
  obtain ⟨h, recounts⟩ := leads.recounts []
  induction recounts with
  | refl => exact every
  | @rest s' h' phase'' s'' before turn ih =>
    have every' := ih before.leads
    have idle : s'.machine.Idle := (here.leads before.leads).keeps
    have there : Reached Admitted phase'' s'' := here.leads (before.leads.turn turn)
    cases turn with
    | @native _ name arity body admitted =>
      have makes := NativeBody.Makes.mono (fair body admitted) fun p _ serial => empty serial p
      refine everywhere_resting there.keeps ?_
      exact Journaled.holds (note_journaled _ _ _) (defineNative_holds every'.toHolds _ _ makes _)
    | reject rejects =>
      obtain ⟨strings, journal, same⟩ := load_rejects rejects
      refine everywhere_resting there.keeps ?_
      rw [same]
      exact every'.toHolds.of_same rfl rfl rfl rfl rfl rfl rfl
    | load loads =>
      obtain ⟨p, strings, nextPrototype, -, journal, same⟩ := load_idle loads idle
      rw [same]
      refine { every'.toHolds with stack := fun v there => ?_, calls := ?_ }
      · rcases Array.mem_push.1 there with before | rfl
        · exact every'.stack v before
        · exact empty _ _
      · exact List.forall_mem_cons.2 ⟨empty _ _, every'.calls⟩
    | time now => exact every'.aside s'.machine.journal now
    | journal => exact every'.aside #[] s'.machine.now
  | step before goesOn ih =>
    exact ((here.leads before.leads).mono fair).everywhere_step copied (ih before.leads) goesOn fun _ _ _ =>
      made before.leads goesOn
  | stop before stops finishes sound ih =>
    exact ((here.leads before.leads).mono fair).everywhere_finish copied (ih before.leads) stops finishes sound
  | time before now ih => exact (ih before.leads).aside _ now
  | journal before ih => exact (ih before.leads).aside #[] _

end Session

end Lox
