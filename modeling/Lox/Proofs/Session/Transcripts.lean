import Lox.Proofs.Compile.Twins
import Lox.Proofs.Machine.Lockstep
import Lox.Proofs.Session.Reach

/-!
# Transcripts

A transcript tells of everything that was done with a session what came of it, what was printed and
what was reported.  Sources that are rejected are invisible to the rest of the session: without them
the transcript of all the others is the same (`transcript_unrejected`).

A source that is rejected leaves string objects behind, so the two sessions have different ones from
there on.  They stay alike, as machines whose strings have the same contents.
-/

namespace Lox

open Compile Syntax

/-- The same source compiles to functions that are alike, with whatever string objects. -/
lemma compile_alike {L : Link} (source : String) (strings strings' : StringTable)
    {serial serial' : Nat} {p : Prototype} (serials : ∀ k, L.prototypes (serial + k) (serial' + k))
    (compiles : (compile source strings serial).outcome = .ok p) :
    ∃ q, (compile source strings' serial').outcome = .ok q ∧ Prototype.Alike L p q ∧
      ∀ k, L.prototypes ((compile source strings serial).serial + k)
        ((compile source strings' serial').serial + k) := by
  obtain ⟨outcomes, serials'⟩ := compile_twin (L := L) strings strings'
    (List.forall₂_same.2 fun token _ => .refl L token) serials
  rw [compiles] at outcomes
  generalize result : (compile source strings' serial').outcome = outcome at outcomes
  cases outcomes with
  | ok functions => exact ⟨_, rfl, functions, serials'⟩

namespace Session

/-! ## Deeds and answers -/

/-- Something that is done with a session. -/
inductive Deed where
  /-- Runs a source, which may take so many steps. -/
  | interpret (fuel : Nat) (source : String)
  /-- Makes a function of the host a global. -/
  | native (name : String) (arity : UInt8) (body : NativeBody)
  /-- Sets the clock. -/
  | time (now : Float)

/-- The functions of the host make no difference between string objects of the same content, in what they are
given and in all else that they see. -/
def Deed.Indifferent : Deed → Prop
  | .native _ _ body => body.Indifferent .same
  | _ => True

/-- Does it; the result tells what came of it, unless it takes more steps than it may. -/
def perform (s : Session) : Deed → Option Outcome × Session
  | .interpret fuel source => s.interpret fuel source
  | .native name arity body => (some .ok, s.defineNative name arity body)
  | .time now => (some .ok, s.atTime now)

/-- What comes of a deed, with the lines that are printed and reported. -/
structure Answer where
  outcome : Option Outcome
  printed : List String
  reported : List String

/-- Does it and takes the journal out. -/
def answer (s : Session) (d : Deed) : Answer × Session :=
  let (outcome, s) := s.perform d
  let (events, s) := s.takeJournal
  (⟨outcome, events.toList.filterMap Event.output?, events.toList.filterMap Event.report?⟩, s)

/-- All that is done, with the answers.  A run that does not end is the last one. -/
def transcript (s : Session) : List Deed → List (Deed × Answer)
  | [] => []
  | d :: ds =>
    let (a, s) := s.answer d
    (d, a) :: if a.outcome.isSome then s.transcript ds else []

/-! ## Sessions that are alike -/

/-- Sessions whose machines are alike but for the numbers of their string objects. -/
def Alike (s t : Session) : Prop := s.machine.Alike .same t.machine

variable {s t s' : Session}

lemma whole_same : Machine.Whole .same := ⟨rfl, rfl, fun _ _ => id⟩

lemma recorded_note (s : Session) (level : RecordLevel) (text : String) :
    s.machine.Recorded (s.note level text).machine := by
  unfold note
  split
  · exact s.machine.recorded_note level text
  · exact .refl _

lemma recorded_listings (ps : Array Prototype) (s : Session) :
    s.machine.Recorded (ps.foldl (fun s p => s.note .debug ("\n" ++ p.listing)) s).machine := by
  rw [← Array.foldl_toList]
  induction ps.toList generalizing s with
  | nil => exact .refl _
  | cons p ps ih => exact (s.recorded_note .debug _).trans (ih _)

lemma tell_alike (alike : Alike s t) (lines : List String) :
    Alike (s.tell lines) (t.tell lines) := by
  have tells : ∀ {m n : Machine}, m.Alike .same n →
      (lines.foldl (fun m line => m.note (.reported line)) m).Alike .same
        (lines.foldl (fun m line => m.note (.reported line)) n) := by
    induction lines with
    | nil => exact fun alike => alike
    | cons line lines ih => exact fun alike => ih (Machine.note_alike alike _)
  exact tells alike

/-- A source that is run in one of them is run in the other. -/
lemma load_alike (alike : Alike s t) {source : String} (loads : s.load source = (true, s')) :
    ∃ t', t.load source = (true, t') ∧ Alike s' t' := by
  have serials : ∀ k, Link.same.prototypes (s.machine.nextPrototype + k)
      (t.machine.nextPrototype + k) := alike.prototypes
  unfold load at loads ⊢
  have compiles := fun p =>
    compile_alike source s.machine.strings t.machine.strings (p := p) serials
  generalize compile source s.machine.strings s.machine.nextPrototype = done at loads compiles
  generalize compile source t.machine.strings t.machine.nextPrototype = done' at compiles ⊢
  dsimp only at loads ⊢
  cases outcome : done.outcome with
  | error diagnostics =>
    simp only [outcome] at loads
    exact nomatch (Prod.mk.inj loads).1
  | ok p =>
    obtain ⟨q, outcome', functions, later⟩ := compiles p outcome
    simp only [outcome] at loads
    simp only [outcome']
    have listed := recorded_listings done.finished
      { s with machine := { s.machine with strings := done.strings } }
    have listed' := recorded_listings done'.finished
      { t with machine := { t.machine with strings := done'.strings } }
    generalize Array.foldl _ _ done.finished = s₁ at loads listed
    generalize Array.foldl _ _ done'.finished = t₁ at listed' ⊢
    have strings : Machine.Alike .same { s.machine with strings := done.strings }
        { t.machine with strings := done'.strings } := { alike with }
    have numbered : Machine.Alike .same { s₁.machine with nextPrototype := done.serial }
        { t₁.machine with nextPrototype := done'.serial } :=
      { strings.recorded listed listed' with prototypes := later }
    obtain ⟨closures, machines⟩ := Machine.newClosure_alike numbered functions #[]
    have calls := (Machine.push_alike machines (.closure closures)).bind
      fun _ _ _ _ _ alike => Machine.call_alike alike closures 0 (Or.inl rfl)
    generalize (Machine.push _ >>= _ : Action Unit) _ = r at calls loads
    generalize (Machine.push _ >>= _ : Action Unit) _ = r' at calls ⊢
    cases calls with
    | ok _ alike' => exact ⟨_, rfl, (Prod.mk.inj loads).2 ▸ alike'⟩
    | error _ alike' => exact ⟨_, rfl, (Prod.mk.inj loads).2 ▸ alike'⟩

/-- A source that is rejected makes no difference. -/
lemma load_rejects_alike (alike : Alike s t) (silent : t.machine.told = []) {source : String}
    (rejects : s.load source = (false, s')) : Alike s'.takeJournal.2 t := by
  obtain ⟨strings, journal, eq⟩ := load_rejects rejects
  show ({ s'.machine with journal := #[] } : Machine).Alike .same t.machine
  rw [eq]
  exact { alike with told := silent.symm }

lemma finish_alike (alike : Alike s t) (stop : Stop) :
    (s.finish stop).1 = (t.finish stop).1 ∧ Alike (s.finish stop).2 (t.finish stop).2 := by
  cases stop with
  | finished => exact ⟨rfl, alike.recorded (s.recorded_note _ _) (t.recorded_note _ _)⟩
  | failed error =>
    have noted : Alike (s.note .debug ("script aborted: " ++ error.message))
        (t.note .debug ("script aborted: " ++ error.message)) :=
      alike.recorded (s.recorded_note _ _) (t.recorded_note _ _)
    have report := whole_same.report trivial noted error
    have told := tell_alike noted
      ((s.note .debug ("script aborted: " ++ error.message)).machine.report error)
    unfold finish
    dsimp only
    rw [← report]
    generalize Session.tell (s.note .debug _) _ = s₁ at told ⊢
    generalize Session.tell (t.note .debug _) _ = t₁ at told ⊢
    have parts := Machine.partCells_alike told 0 s₁.machine.openCells
    have closes : (s₁.machine.partCells 0 s₁.machine.openCells).isSome =
        (t₁.machine.partCells 0 t₁.machine.openCells).isSome := by
      rw [← told.openCells]
      generalize s₁.machine.partCells 0 s₁.machine.openCells = a at parts ⊢
      generalize t₁.machine.partCells 0 s₁.machine.openCells = b at parts ⊢
      cases parts <;> rfl
    rw [closes]
    exact ⟨rfl, Machine.reset_alike told⟩
  | broken defect => exact ⟨rfl, Machine.reset_alike alike⟩

/-- A source that is run comes to the same in both of them. -/
lemma run_alike (alike : Alike s t) (fuel : Nat) :
    (s.advance fuel).1 = (t.advance fuel).1 ∧ Alike (s.advance fuel).2 (t.advance fuel).2 :=
  whole_same.run (s.verbosity.wants .trace) (t.verbosity.wants .trace) fuel alike

lemma defineNative_alike (alike : Alike s t) (name : String) (arity : UInt8) {body : NativeBody}
    (indifferent : body.Indifferent .same) :
    Alike (s.defineNative name arity body) (t.defineNative name arity body) := by
  have content := (s.machine.strings.content_intern name).trans
    (t.machine.strings.content_intern name).symm
  have interned : Machine.Alike .same
      { s.machine with strings := (s.machine.strings.intern name).2 }
      { t.machine with strings := (t.machine.strings.intern name).2 } := { alike with }
  obtain ⟨value, machines⟩ := Machine.newNative_alike interned
    (s.machine.strings.intern name).1.content arity indifferent
  unfold defineNative
  dsimp only
  rw [← content]
  generalize Machine.newNative _ _ _ _ = r at value machines ⊢
  generalize Machine.newNative _ _ _ _ = r' at value machines ⊢
  have defined : Machine.Alike .same
      { r.2 with globals := r.2.globals.insert (s.machine.strings.intern name).1.content r.1 }
      { r'.2 with globals := r'.2.globals.insert (s.machine.strings.intern name).1.content r'.1 } :=
    { machines with globals := machines.globals.insert _ value }
  exact defined.recorded (recorded_note _ _ _) (recorded_note _ _ _)

lemma told_defineNative (s : Session) (name : String) (arity : UInt8) (body : NativeBody) :
    (s.defineNative name arity body).machine.told = s.machine.told := by
  unfold defineNative
  dsimp only
  obtain ⟨_, -, told⟩ := recorded_note
    { s with
      machine :=
        { s.machine with
          strings := (s.machine.strings.intern name).2
          natives := s.machine.natives.push body
          globals := s.machine.globals.insert (s.machine.strings.intern name).1.content
            (.native ⟨s.machine.natives.size, (s.machine.strings.intern name).1.content, arity⟩) } }
    .trace ("registered native function " ++ (s.machine.strings.intern name).1.content ++ "/" ++
      toString arity.toNat)
  exact told

/-- What is rejected is a source. -/
lemma perform_rejects {d : Deed} (rejects : (s.perform d).1 = some .compileError) :
    ∃ source, s.load source = (false, (s.perform d).2) := by
  cases d with
  | interpret fuel source =>
    unfold perform interpret at rejects ⊢
    dsimp only at rejects ⊢
    split at rejects
    · next s' loads => exact ⟨source, loads⟩
    · exfalso
      split at rejects
      · exact nomatch rejects
      · next stop s₂ _ =>
        cases stop with
        | finished => exact nomatch rejects
        | failed error =>
          replace rejects := Option.some.inj rejects
          unfold finish at rejects
          dsimp only at rejects
          split at rejects <;> exact nomatch rejects
        | broken defect => exact nomatch rejects
  | native => exact nomatch rejects
  | time => exact nomatch rejects

lemma perform_alike (alike : Alike s t) (d : Deed) (indifferent : d.Indifferent)
    (accepted : (s.perform d).1 ≠ some .compileError) :
    (s.perform d).1 = (t.perform d).1 ∧ Alike (s.perform d).2 (t.perform d).2 := by
  cases d with
  | native name arity body => exact ⟨rfl, defineNative_alike alike name arity indifferent⟩
  | time now => exact ⟨rfl, { alike with now := rfl }⟩
  | interpret fuel source =>
    unfold perform interpret at accepted ⊢
    dsimp only at accepted ⊢
    cases loads : s.load source with
    | mk loaded s₁ =>
      rw [loads] at accepted
      cases loaded with
      | false => exact absurd rfl accepted
      | true =>
        obtain ⟨t₁, loads', alike₁⟩ := load_alike alike loads
        rw [loads']
        dsimp only
        obtain ⟨stops, alike₂⟩ := run_alike alike₁ fuel
        generalize s₁.advance fuel = r at stops alike₂ ⊢
        generalize t₁.advance fuel = r' at stops alike₂ ⊢
        obtain ⟨stop?, s₂⟩ := r
        obtain ⟨stop?', t₂⟩ := r'
        obtain rfl : stop? = stop?' := stops
        cases stop? with
        | none => exact ⟨rfl, alike₂⟩
        | some stop =>
          obtain ⟨outcomes, alike₃⟩ := finish_alike alike₂ stop
          exact ⟨congrArg some outcomes, alike₃⟩

/-- What is printed and reported is all that has been told. -/
lemma answer_eq (s : Session) (d : Deed) :
    s.answer d =
      (⟨(s.perform d).1, (s.perform d).2.machine.told.filterMap Event.output?,
        (s.perform d).2.machine.told.filterMap Event.report?⟩, (s.perform d).2.takeJournal.2) := by
  unfold answer
  generalize s.perform d = r
  obtain ⟨outcome, s'⟩ := r
  unfold Machine.told
  rw [List.filterMap_filter, List.filterMap_filter]
  have lines : ∀ {f : Event → Option String} (es : List Event),
      (∀ e, f e = if e.output?.isSome || e.report?.isSome then f e else none) →
      es.filterMap f = es.filterMap fun e =>
        if e.output?.isSome || e.report?.isSome then f e else none :=
    fun es same => congrArg (List.filterMap · es) (funext same)
  rw [← lines _ fun e => by cases e <;> rfl, ← lines _ fun e => by cases e <;> rfl]
  rfl

lemma takeJournal_alike (alike : Alike s t) : Alike s.takeJournal.2 t.takeJournal.2 := by
  have emptied : Machine.Alike .same { s.machine with journal := #[] }
    { t.machine with journal := #[] } := { alike with told := rfl }
  exact emptied

/-- What is done with both of them has the same answer, if it is not rejected. -/
lemma answer_alike (alike : Alike s t) (d : Deed) (indifferent : d.Indifferent)
    (accepted : (s.answer d).1.outcome ≠ some .compileError) :
    (s.answer d).1 = (t.answer d).1 ∧ Alike (s.answer d).2 (t.answer d).2 := by
  rw [answer_eq] at accepted
  obtain ⟨outcomes, performed⟩ := perform_alike alike d indifferent accepted
  rw [answer_eq, answer_eq, outcomes, performed.told]
  exact ⟨rfl, takeJournal_alike performed⟩

/-- What is rejected makes no difference. -/
lemma answer_rejected (alike : Alike s t) (silent : t.machine.told = []) {d : Deed}
    (rejected : (s.answer d).1.outcome = some .compileError) : Alike (s.answer d).2 t := by
  obtain ⟨source, rejects⟩ := perform_rejects rejected
  exact load_rejects_alike alike silent rejects

lemma start_alike (verbosity : Verbosity) :
    Alike (start verbosity) (start verbosity) ∧ (start verbosity).machine.told = [] := by
  unfold start
  generalize StringTable.empty.intern "init" = r
  obtain ⟨_, strings⟩ := r
  dsimp only
  have empty : Machine.Alike .same { Machine.empty with strings } { Machine.empty with strings } :=
    { stack := .empty
      frames := .nil
      globals := .empty
      cells := .empty
      openCells := rfl
      methods := .empty
      fields := .empty
      natives := rfl
      hostCalls := .empty
      indifferent := fun _ there => absurd there (Array.not_mem_empty _)
      prototypes := fun _ => rfl
      closures := fun _ => rfl
      nextBound := rfl
      now := rfl
      told := rfl }
  generalize opened : ({ machine := { Machine.empty with strings }, verbosity } : Session) = s
  have alike : Alike s s := opened ▸ empty
  have indifferent : NativeBody.Indifferent .same clock :=
    fun host host' _ _ alike _ => by
      show AnswersAlike .same (.ok (.value (.number host.now))) (.ok (.value (.number host'.now)))
      rw [alike.now]
      exact .ok (.value (.number host'.now))
  exact ⟨defineNative_alike alike "clock" 0 indifferent,
    (told_defineNative s "clock" 0 clock).trans (opened ▸ rfl)⟩

/-! ## Transcripts -/

/-- Was it not rejected? -/
def Answer.accepted (a : Answer) : Bool := a.outcome ≠ some .compileError

lemma transcript_cons (s : Session) (d : Deed) (ds : List Deed) :
    s.transcript (d :: ds) =
      (d, (s.answer d).1) ::
        if (s.answer d).1.outcome.isSome then (s.answer d).2.transcript ds else [] := rfl

lemma transcript_alike (ds : List Deed) (indifferent : ∀ d ∈ ds, d.Indifferent) :
    ∀ {s t : Session}, Alike s t → t.machine.told = [] →
      t.transcript (((s.transcript ds).filter (·.2.accepted)).map Prod.fst) =
        (s.transcript ds).filter (·.2.accepted) := by
  induction ds with
  | nil => exact fun _ _ => rfl
  | cons d ds ih =>
    intro s t alike silent
    have others := fun d there => indifferent d (List.mem_cons_of_mem _ there)
    rw [transcript_cons]
    by_cases rejected : (s.answer d).1.outcome = some .compileError
    · have gone : ¬(s.answer d).1.accepted := by
        unfold Answer.accepted
        rw [rejected]
        exact Bool.false_ne_true
      rw [List.filter_cons_of_neg (a := (d, (s.answer d).1)) gone, rejected, Option.isSome_some, if_pos rfl]
      exact ih others (answer_rejected alike silent rejected) silent
    · have stays : (s.answer d).1.accepted := decide_eq_true rejected
      obtain ⟨answers, alike'⟩ := answer_alike alike d (indifferent d List.mem_cons_self) rejected
      rw [List.filter_cons_of_pos (a := (d, (s.answer d).1)) stays, List.map_cons, transcript_cons, ← answers]
      refine congrArg (_ :: ·) ?_
      split
      · exact ih others alike' rfl
      · rfl

/-- Without the sources that are rejected all the others have the same answers. -/
theorem transcript_unrejected (verbosity : Verbosity) (ds : List Deed)
    (indifferent : ∀ d ∈ ds, d.Indifferent) :
    let accepted := ((start verbosity).transcript ds).filter (·.2.accepted)
    (start verbosity).transcript (accepted.map Prod.fst) = accepted :=
  transcript_alike ds indifferent (start_alike verbosity).1 (start_alike verbosity).2

/-- A source is rejected after it has made a string object that a later one uses. -/
theorem transcript_unrejected_strings :
    let ds : List Deed :=
      [.native "echo" 1 fun _ args => .ok (.value (args[0]?.getD .nil)),
        .interpret 100 "var s = echo(\"ab\");",
        .interpret 100 "var ab = \"left over\" + ;",
        .interpret 100 "print s == \"a\" + \"b\"; print \"left over\" == s; print ab;"]
    ((start .quiet).transcript ds).map (fun x => (x.2.outcome, x.2.printed, x.2.reported)) =
        [(some .ok, [], []), (some .ok, [], []),
          (some .compileError, [], ["[line 1] Error at ';': Expect expression."]),
          (some .runtimeError, ["true", "false"],
            ["Undefined variable 'ab'.", "[line 1] in script"])] ∧
      (∀ d ∈ ds, d.Indifferent) ∧
        let accepted := ((start .quiet).transcript ds).filter (·.2.accepted)
        (start .quiet).transcript (accepted.map Prod.fst) = accepted := by
  intro ds
  have indifferent : ∀ d ∈ ds, d.Indifferent := by
    intro d there
    simp only [ds, List.mem_cons, List.not_mem_nil, or_false] at there
    rcases there with rfl | rfl | rfl | rfl
    · intro host host' args args' _ alike
      refine .ok (.value ?_)
      have entry := alike.entry 0 (Nat.le_refl 0)
      generalize args[0]? = v at entry ⊢
      generalize args'[0]? = w at entry ⊢
      cases entry with
      | some values => exact values
      | none => exact .nil
    all_goals exact trivial
  exact ⟨by decide +kernel, indifferent, transcript_unrejected .quiet ds indifferent⟩

end Session

end Lox
