import Lox.Session
import Mathlib.Tactic.Lemma

/-!
# The states of a session

A session goes on turn by turn (`Turn`): a source may be rejected; or else a run of it goes on, in as
many parts as one likes, until it stops.  Its states are those of `Reached`, and `Leads` tells what
comes after what.  What the turns do to the machine is told by `load_rejects`, `load_runs`, `run_stops`
and `finish_machine`.
-/

namespace Lox

/-- Between two runs, or in one. -/
inductive Phase where
  | resting
  | running

namespace Session

/-- What may be done with a session, with functions of the host that are admitted.  A run goes on until
it stops, and then it is ended. -/
inductive Turn (Admitted : NativeBody → Prop) : Phase → Session → Phase → Session → Prop where
  | native {s name arity body} (admitted : Admitted body) :
      Turn Admitted .resting s .resting (s.defineNative name arity body)
  | reject {s s' source} (rejects : s.load source = (false, s')) :
      Turn Admitted .resting s .resting s'
  | load {s s' source} (loads : s.load source = (true, s')) : Turn Admitted .resting s .running s'
  | advance {s s' fuel} (goesOn : s.advance fuel = (none, s')) :
      Turn Admitted .running s .running s'
  | finish {s s' s'' fuel stop outcome} (stops : s.advance fuel = (some stop, s'))
      (finishes : s'.finish stop = (outcome, s'')) (sound : ∀ defect, outcome ≠ .defect defect) :
      Turn Admitted .running s .resting s''
  | time {phase s} (now : Float) : Turn Admitted phase s phase (s.atTime now)
  | journal {phase s} : Turn Admitted phase s phase s.takeJournal.2

/-- What a session comes to from some state on. -/
inductive Leads (Admitted : NativeBody → Prop) (phase : Phase) (s : Session) : Phase → Session → Prop where
  | refl : Leads Admitted phase s phase s
  | turn {phase' s' phase'' s''} (before : Leads Admitted phase s phase' s')
      (turn : Turn Admitted phase' s' phase'' s'') : Leads Admitted phase s phase'' s''

/-- The states that a session comes to. -/
def Reached (Admitted : NativeBody → Prop) (phase : Phase) (s : Session) : Prop :=
  ∃ verbosity, Leads Admitted .resting (start verbosity) phase s

variable {Admitted : NativeBody → Prop} {phase phase' : Phase} {s s' : Session}

lemma Reached.start (verbosity : Verbosity) : Reached Admitted .resting (start verbosity) :=
  ⟨verbosity, .refl⟩

lemma Reached.turn (here : Reached Admitted phase s) (turn : Turn Admitted phase s phase' s') :
    Reached Admitted phase' s' := by
  obtain ⟨verbosity, leads⟩ := here
  exact ⟨verbosity, leads.turn turn⟩

lemma Turn.mono {Admitted' : NativeBody → Prop} (turn : Turn Admitted phase s phase' s')
    (weaker : ∀ body, Admitted body → Admitted' body) : Turn Admitted' phase s phase' s' := by
  cases turn with
  | native admitted => exact .native (weaker _ admitted)
  | reject rejects => exact .reject rejects
  | load loads => exact .load loads
  | advance goesOn => exact .advance goesOn
  | finish stops finishes sound => exact .finish stops finishes sound
  | time now => exact .time now
  | journal => exact .journal

/-- The states of sessions with other functions of the host, if all of these are admitted as well. -/
lemma Reached.mono {Admitted' : NativeBody → Prop} (here : Reached Admitted phase s)
    (weaker : ∀ body, Admitted body → Admitted' body) : Reached Admitted' phase s := by
  obtain ⟨verbosity, leads⟩ := here
  refine ⟨verbosity, ?_⟩
  induction leads with
  | refl => exact .refl
  | turn _ turn ih => exact ih.turn (turn.mono weaker)

/-- What holds at the start and is kept by every turn holds in every state. -/
lemma Reached.invariant {Invariant : Phase → Session → Prop} (here : Reached Admitted phase s)
    (initially : ∀ verbosity, Invariant .resting (Session.start verbosity))
    (kept : ∀ {phase s phase' s'}, Reached Admitted phase s → Invariant phase s →
      Turn Admitted phase s phase' s' → Invariant phase' s') : Invariant phase s := by
  obtain ⟨verbosity, leads⟩ := here
  induction leads with
  | refl => exact initially verbosity
  | turn before turn ih => exact kept ⟨verbosity, before⟩ ih turn

/-- A source that is run leads from rest to rest. -/
lemma Reached.interpret {fuel : Nat} {source : String} {outcome : Outcome}
    (here : Reached Admitted .resting s) (returns : s.interpret fuel source = (some outcome, s'))
    (sound : ∀ defect, outcome ≠ .defect defect) : Reached Admitted .resting s' := by
  unfold Session.interpret at returns
  split at returns
  · next s₁ rejects =>
    obtain ⟨-, rfl⟩ := Prod.mk.inj returns
    exact here.turn (.reject rejects)
  · next s₁ loads =>
    split at returns
    · exact nomatch (Prod.mk.inj returns).1
    · next stop s₂ stops =>
      generalize finishes : s₂.finish stop = result at returns
      obtain ⟨outcome', s₃⟩ := result
      obtain ⟨same, rfl⟩ := Prod.mk.inj returns
      obtain rfl := Option.some.inj same
      exact (here.turn (.load loads)).turn (.finish stops finishes sound)

/-! ## Midway -/

/-- The session in the run of a source, after so many steps, if the run comes that far. -/
def midway (s : Session) (source : String) (fuel : Nat) : Option Session :=
  match s.load source with
  | (false, _) => none
  | (true, s) =>
    match s.advance fuel with
    | (some _, _) => none
    | (none, s) => some s

lemma Reached.midway {fuel : Nat} {source : String} (here : Reached Admitted .resting s)
    (comes : s.midway source fuel = some s') : Reached Admitted .running s' := by
  unfold Session.midway at comes
  split at comes
  · cases comes
  · next s₁ loads =>
    split at comes
    · cases comes
    · next s₂ goesOn =>
      obtain rfl := Option.some.inj comes
      exact (here.turn (.load loads)).turn (.advance goesOn)

/-- What can be tested of the session midway holds of a state that it comes to. -/
lemma Reached.exists_midway {P : Session → Prop} [DecidablePred P] {fuel : Nat} {source : String}
    (here : Reached Admitted .resting s) (test : (s.midway source fuel).any (fun s => P s) = true) :
    ∃ s', Reached Admitted .running s' ∧ P s' := by
  obtain ⟨s', comes, holds⟩ := (Option.any_eq_true _ _).1 test
  exact ⟨s', here.midway comes, of_decide_eq_true holds⟩

/-! ## The journal -/

/-- Nothing but the journal differs. -/
def Journaled (m m' : Machine) : Prop := ∃ journal, m' = { m with journal }

lemma Journaled.refl (m : Machine) : Journaled m m := ⟨m.journal, rfl⟩

lemma Journaled.trans {m m' m'' : Machine} (first : Journaled m m') (second : Journaled m' m'') :
    Journaled m m'' := by
  obtain ⟨_, rfl⟩ := first
  obtain ⟨journal, rfl⟩ := second
  exact ⟨journal, rfl⟩

lemma note_journaled (s : Session) (level : RecordLevel) (text : String) :
    Journaled s.machine (s.note level text).machine := by
  unfold note
  split
  · exact ⟨_, rfl⟩
  · exact .refl _

lemma tell_journaled (s : Session) (lines : List String) :
    Journaled s.machine (s.tell lines).machine := by
  have notes : ∀ m : Machine,
      Journaled m (lines.foldl (fun m line => m.note (.reported line)) m) := by
    induction lines with
    | nil => exact .refl
    | cons line lines ih => exact fun m => .trans ⟨_, rfl⟩ (ih (m.note (.reported line)))
  exact notes s.machine

lemma noteStep_journaled (m : Machine) : Journaled m m.noteStep := by
  unfold Machine.noteStep
  split
  · exact ⟨_, rfl⟩
  · exact .refl m

/-! ## Loading -/

/-- What is done before a source is rejected or run. -/
lemma listings_journaled (ps : Array Prototype) (s : Session) :
    Journaled s.machine
      (ps.foldl (fun s p => s.note .debug ("\n" ++ p.listing)) s).machine := by
  rw [← Array.foldl_toList]
  induction ps.toList generalizing s with
  | nil => exact .refl _
  | cons p ps ih => exact (s.note_journaled .debug _).trans (ih _)

/-- A source that is rejected leaves string objects behind. -/
lemma load_rejects {source : String} (rejects : s.load source = (false, s')) :
    ∃ strings, Journaled { s.machine with strings } s'.machine := by
  unfold load at rejects
  generalize compile source s.machine.strings s.machine.nextPrototype = done at rejects
  dsimp only at rejects
  split at rejects
  · obtain ⟨-, rfl⟩ := Prod.mk.inj rejects
    exact ⟨done.strings, (listings_journaled _ _).trans ((tell_journaled _ _).trans (note_journaled _ _ _))⟩
  · split at rejects <;> exact nomatch (Prod.mk.inj rejects).1

/-- The machine at the start of a script. -/
def loaded (m : Machine) (p : Prototype) (strings : StringTable) (nextPrototype : Nat) : Machine :=
  let c : Closure := ⟨m.nextClosure, p, #[]⟩
  { m with
    stack := m.stack.push (.closure c), frames := ⟨c, 0, m.stack.size⟩ :: m.frames, strings,
    nextPrototype, nextClosure := m.nextClosure + 1 }

lemma call_script (m : Machine) (c : Closure) (script : c.prototype.arity = 0)
    (few : m.frames.length < Machine.maxFrames) :
    (do Machine.push (.closure c); Machine.call c 0 : Action Unit) m =
      .ok () { m with
        stack := m.stack.push (.closure c), frames := ⟨c, 0, m.stack.size⟩ :: m.frames } := by
  show Machine.call c 0 { m with stack := m.stack.push (.closure c) } = _
  have size : (m.stack.push (.closure c)).size - 1 - 0 = m.stack.size := by
    rw [Array.size_push]
    rfl
  unfold Machine.call
  rw [if_neg (not_not_intro script), if_neg (Nat.not_le_of_lt few),
    if_pos (by rw [Array.size_push]; exact Nat.succ_pos _)]
  simp only [UInt8.toNat_zero, size]

/-- A source that is not rejected is compiled, and its script is called. -/
lemma load_runs {source : String} (loads : s.load source = (true, s'))
    (few : s.machine.frames.length < Machine.maxFrames)
    (script : ∀ p, (compile source s.machine.strings s.machine.nextPrototype).outcome = .ok p →
      p.arity = 0) :
    ∃ p strings nextPrototype,
      (compile source s.machine.strings s.machine.nextPrototype).outcome = .ok p ∧
        Journaled (loaded s.machine p strings nextPrototype) s'.machine := by
  unfold load at loads
  generalize compile source s.machine.strings s.machine.nextPrototype = done at loads script ⊢
  dsimp only at loads
  split at loads
  · exact nomatch (Prod.mk.inj loads).1
  · next p compiles =>
    have listed := listings_journaled done.finished
      { s with machine := { s.machine with strings := done.strings } }
    generalize Array.foldl _ _ done.finished = s₁ at loads listed
    obtain ⟨journal, listed⟩ := listed
    have calls := call_script
      { s₁.machine with nextPrototype := done.serial, nextClosure := s₁.machine.nextClosure + 1 }
      ⟨s₁.machine.nextClosure, p, #[]⟩ (script p compiles) (by rw [listed]; exact few)
    split at loads
    · next m' runs =>
      obtain ⟨-, rfl⟩ := Prod.mk.inj loads
      obtain ⟨-, rfl⟩ := EStateM.Result.ok.inj (calls.symm.trans runs)
      rw [listed]
      exact ⟨p, done.strings, done.serial, compiles, journal, rfl⟩
    · next runs => cases calls.symm.trans runs

/-! ## Running -/

/-- A run that goes on has come to a state of the invariant, and one that stops to a last step
from there. -/
def After (Invariant : Machine → Prop) : Option Stop → Machine → Prop
  | none, m => Invariant m
  | some stop, m => ∃ m₀, Invariant m₀ ∧ m₀.step = .error stop m

/-- What steps preserve, runs preserve. -/
lemma run_stops {Invariant : Machine → Prop}
    (journaled : ∀ m m', Journaled m m' → Invariant m → Invariant m')
    (steps : ∀ m m', Invariant m → m.step = .ok () m' → Invariant m')
    {traced : Bool} {fuel : Nat} {m m' : Machine} {stop? : Option Stop} (initially : Invariant m)
    (runs : m.run traced fuel = (stop?, m')) : After Invariant stop? m' := by
  induction fuel generalizing m with
  | zero =>
    obtain ⟨rfl, rfl⟩ := Prod.mk.inj runs
    exact initially
  | succ fuel ih =>
    rw [Machine.run] at runs
    have noted : Invariant (if traced then m.noteStep else m) := by
      split
      · exact journaled _ _ (noteStep_journaled m) initially
      · exact initially
    split at runs
    · next step => exact ih (steps _ _ noted step) runs
    · next step =>
      obtain ⟨rfl, rfl⟩ := Prod.mk.inj runs
      exact ⟨_, noted, step⟩

lemma advance_stops {Invariant : Machine → Prop}
    (journaled : ∀ m m', Journaled m m' → Invariant m → Invariant m')
    (steps : ∀ m m', Invariant m → m.step = .ok () m' → Invariant m')
    {fuel : Nat} {stop? : Option Stop} (initially : Invariant s.machine)
    (runs : s.advance fuel = (stop?, s')) : After Invariant stop? s'.machine := by
  unfold advance at runs
  generalize result : s.machine.run (s.verbosity.wants .trace) fuel = pair at runs
  obtain ⟨stop, m'⟩ := pair
  obtain ⟨rfl, rfl⟩ := Prod.mk.inj runs
  exact run_stops journaled steps initially result

/-! ## Stopping -/

/-- A run that has stopped leaves its machine alone, or else gives it up. -/
lemma finish_machine {stop : Stop} {outcome : Outcome} (finishes : s.finish stop = (outcome, s'))
    (sound : ∀ defect, outcome ≠ .defect defect) :
    (stop = .finished ∧ outcome = .ok ∧ Journaled s.machine s'.machine) ∨
      ∃ error m, stop = .failed error ∧ outcome = .runtimeError ∧ Journaled s.machine m ∧
        (m.partCells 0 m.openCells).isSome ∧ s'.machine = m.reset := by
  cases stop with
  | finished =>
    obtain ⟨rfl, rfl⟩ := Prod.mk.inj finishes
    exact .inl ⟨rfl, rfl, note_journaled _ _ _⟩
  | failed error =>
    right
    obtain ⟨told, rfl⟩ := Prod.mk.inj finishes
    split at told
    · next closes =>
      exact ⟨error, _, rfl, told.symm, (note_journaled _ _ _).trans (tell_journaled _ _), closes, rfl⟩
    · exact absurd told.symm (sound _)
  | broken defect => exact absurd (Prod.mk.inj finishes).1.symm (sound defect)

end Session

end Lox
