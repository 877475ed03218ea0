import Lox.Proofs.Compile.Course

/-!
# Compilation without complaints

What is known of a source that compiles is known of runs in which nothing is complained of and
nothing fails.  No action of the compilation ever takes a complaint or a fault back (`Careful`), so
if the last state of a run is without them then every state before it is.  `Runs act s a s'` says
that an action goes from `s` to `s'` in this quiet way.  A quiet run of a sequence falls into quiet
runs of its parts (`runs_bind`), and a quiet run never gets to a complaint (`not_runs_complain`) or
a fault (`not_runs_fail`): so a proof about a quiet run follows the one way through the action on
which there are none.
-/

namespace Lox.Compile

variable {α β : Type}

/-! ## Complaints and faults stay -/

/-- Panicking only after a complaint. -/
def State.Sane (s : State) : Prop := s.panicking = true → s.diagnostics ≠ #[]

/-- Nothing has been complained of, and nothing has failed. -/
structure State.Clean (s : State) : Prop where
  diagnostics : s.diagnostics = #[]
  calm : s.panicking = false
  fault : s.fault = none

/-- A later state, in which no complaint and no fault has been taken back. -/
structure Worsens (s s' : State) : Prop where
  sane : s.Sane → s'.Sane
  complaints : s.diagnostics ≠ #[] → s'.diagnostics ≠ #[]
  faults : s.fault ≠ none → s'.fault ≠ none

/-- The action takes no complaint and no fault back. -/
abbrev Careful (act : Compiling α) : Prop := Follows Worsens act

/-- The actions for nested phrases take no complaint and no fault back. -/
abbrev Level.Careful (inner : Level) : Prop := inner.Follows Worsens

lemma State.sane_complainOf {s : State} (token : Token) (complaint : Complaint) (h : s.Sane) :
    (s.complainOf token complaint).Sane := by
  unfold complainOf
  split
  · exact h
  · exact fun _ => Array.push_ne_empty

lemma State.diagnostics_complainOf {s : State} (token : Token) (complaint : Complaint)
    (h : s.Sane) : (s.complainOf token complaint).diagnostics ≠ #[] := by
  unfold complainOf
  split
  · next panicking => exact h panicking
  · exact Array.push_ne_empty

lemma State.worsens_complainOf (s : State) (token : Token) (complaint : Complaint) :
    Worsens s (s.complainOf token complaint) where
  sane := State.sane_complainOf token complaint
  complaints h := by
    unfold complainOf
    split
    · exact h
    · exact Array.push_ne_empty
  faults h := by
    unfold complainOf
    split <;> exact h

lemma Worsens.trans {s s' s'' : State} (h : Worsens s s') (h' : Worsens s' s'') : Worsens s s'' :=
  ⟨h'.sane ∘ h.sane, h'.complaints ∘ h.complaints, h'.faults ∘ h.faults⟩

lemma State.worsens_settle (ts : List Token) : ∀ s : State, Worsens s (s.settle ts) := by
  induction ts with
  | nil => exact fun _ => ⟨id, id, id⟩
  | cons t ts ih =>
    intro s
    unfold settle
    split
    · have read : Worsens s { s with rest := ts } := ⟨id, id, id⟩
      exact (read.trans (State.worsens_complainOf _ _ _)).trans (ih _)
    · exact ⟨id, id, id⟩

/-- After a fault there is one. -/
lemma State.failed_fail (s : State) (fault : Fault) : (fail fault s).2.fault ≠ none := by
  show s.fault.or (some fault) ≠ none
  cases s.fault <;> exact Option.some_ne_none _

/-- No action takes a complaint or a fault back. -/
instance : Calm Worsens where
  same h :=
    ⟨fun sane => by rw [State.Sane, h.panicking, h.diagnostics]; exact sane,
      fun complained => by rw [h.diagnostics]; exact complained,
      fun failed => by rw [h.fault]; exact failed⟩
  trans := Worsens.trans
  complains s token complaint _ := s.worsens_complainOf token complaint
  fails s fault := ⟨id, id, fun _ => s.failed_fail fault⟩
  advances s := by
    have passed : Worsens s { s with previous := s.current } := ⟨id, id, id⟩
    exact passed.trans (State.worsens_settle s.rest _)
  calms _ := ⟨fun _ panicking => absurd panicking Bool.false_ne_true, id, id⟩

instance : Course Worsens := Calm.toCourse

lemma worsens (act : Compiling α) [Careful act] (s : State) : Worsens s (act s).2 :=
  Follows.step s

/-! ## Quiet runs -/

/-- The action goes from one state to another, with this result and without complaints. -/
structure Runs (act : Compiling α) (s : State) (a : α) (s' : State) : Prop where
  eq : act s = (a, s')
  sane : s.Sane
  clean : s'.Clean

lemma State.Clean.sane {s : State} (h : s.Clean) : s.Sane := by
  intro panicking
  rw [h.calm] at panicking
  exact absurd panicking Bool.false_ne_true

/-- A quiet run starts without complaints. -/
lemma Runs.start {act : Compiling α} [Careful act] {s s' : State} {a : α} (h : Runs act s a s') :
    s.Clean := by
  have final : (act s).2.diagnostics = #[] := by
    rw [h.eq]
    exact h.clean.diagnostics
  have diagnostics : s.diagnostics = #[] := by
    apply Decidable.byContradiction
    exact fun complained => (worsens act s).complaints complained final
  have final : (act s).2.fault = none := by
    rw [h.eq]
    exact h.clean.fault
  refine ⟨diagnostics, Bool.eq_false_iff.2 fun panicking => h.sane panicking diagnostics, ?_⟩
  apply Decidable.byContradiction
  exact fun failed => (worsens act s).faults failed final

lemma runs_pure {a b : α} {s s' : State} :
    Runs (pure a) s b s' ↔ a = b ∧ s = s' ∧ s.Clean := by
  constructor
  · intro h
    obtain ⟨rfl, rfl⟩ := Prod.mk.inj h.eq
    exact ⟨rfl, rfl, h.clean⟩
  · rintro ⟨rfl, rfl, clean⟩
    exact ⟨rfl, clean.sane, clean⟩

/-- A quiet run of a sequence is a quiet run of the first action and one of the others. -/
lemma runs_bind {act : Compiling α} {f : α → Compiling β} [Careful act] [∀ a, Careful (f a)]
    {s s'' : State} {b : β} :
    Runs (act >>= f) s b s'' ↔ ∃ a s', Runs act s a s' ∧ Runs (f a) s' b s'' := by
  constructor
  · intro h
    have second : Runs (f (act s).1) (act s).2 b s'' := ⟨h.eq, (worsens act s).sane h.sane, h.clean⟩
    exact ⟨(act s).1, (act s).2, ⟨rfl, h.sane, second.start⟩, second⟩
  · rintro ⟨a, s', first, second⟩
    refine ⟨?_, first.sane, second.clean⟩
    show (f (act s).1) (act s).2 = _
    rw [first.eq]
    exact second.eq

lemma runs_pure_bind {a : α} {f : α → Compiling β} {s s' : State} {b : β} :
    Runs (pure a >>= f) s b s' ↔ Runs (f a) s b s' :=
  ⟨fun h => ⟨h.eq, h.sane, h.clean⟩, fun h => ⟨h.eq, h.sane, h.clean⟩⟩

/-- Looking at the state changes nothing. -/
lemma runs_get_bind {f : State → Compiling β} {s s' : State} {b : β} :
    Runs (get >>= f) s b s' ↔ Runs (f s) s b s' :=
  ⟨fun h => ⟨h.eq, h.sane, h.clean⟩, fun h => ⟨h.eq, h.sane, h.clean⟩⟩

lemma runs_ite {c : Prop} [Decidable c] {x y : Compiling α} {s s' : State} {a : α} :
    Runs (if c then x else y) s a s' ↔ (c ∧ Runs x s a s') ∨ (¬c ∧ Runs y s a s') := by
  by_cases h : c <;> simp [h]

/-- A quiet run does not complain. -/
lemma not_runs_complain {complaint : Complaint} {s s' : State} {a : Unit} :
    ¬Runs (complain complaint) s a s' := by
  intro h
  have final : (s.complainOf s.previous complaint).diagnostics = #[] := by
    have state : s.complainOf s.previous complaint = s' := congrArg Prod.snd h.eq
    rw [state]
    exact h.clean.diagnostics
  exact s.diagnostics_complainOf _ _ h.sane final

lemma not_runs_complainHere {complaint : Complaint} {s s' : State} {a : Unit} :
    ¬Runs (complainHere complaint) s a s' := by
  intro h
  have final : (s.complainOf s.current complaint).diagnostics = #[] := by
    have state : s.complainOf s.current complaint = s' := congrArg Prod.snd h.eq
    rw [state]
    exact h.clean.diagnostics
  exact s.diagnostics_complainOf _ _ h.sane final

/-- A quiet run does not fail. -/
lemma not_runs_fail {fault : Fault} {s s' : State} {a : Unit} : ¬Runs (fail fault) s a s' := by
  intro h
  have final : (fail fault s).2.fault = none := by
    rw [h.eq]
    exact h.clean.fault
  exact s.failed_fail fault final

end Lox.Compile
