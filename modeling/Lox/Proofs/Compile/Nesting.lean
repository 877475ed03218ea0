import Lox.Proofs.Compile.LawfulPrograms
import Lox.Proofs.Compile.Plans
import Lox.Proofs.Syntax.Rendering

/-!
# The limit of nesting

A source is read with a depth that is never greater than the limit and that is the same after a phrase as before
it (`Reading.Leads.depth_le`, `asks_lead`).

A greater limit makes no difference before the first phrase that is refused (`Plan.parts`).  So a program
that only its depth speaks against is rejected by a complaint about its depth first.
-/

namespace Lox.Compile

open Reading

variable {α β : Type}

/-! ## Scripts -/

lemma script_state (s : State) : (script s).2 = (scriptAt (level maxNesting) s).2 := rfl

/-- A compilation before the first token. -/
def Reading.start (source : String) (strings : StringTable) (serial : Nat) : Reading where
  state := State.start (Token.scan source) strings serial
  plan := Planned.plan scriptAt
  around := []

/-! ## Another limit -/

/-- What is complained of first. -/
def State.firstComplaint (s : State) : Option Complaint := s.diagnostics[0]?.map (·.complaint)

/-- The first complaint stays the first one. -/
def KeepsFirst (s s' : State) : Prop := ∀ c, s.firstComplaint = some c → s'.firstComplaint = some c

lemma KeepsFirst.trans {s s' s'' : State} (h : KeepsFirst s s') (h' : KeepsFirst s' s'') : KeepsFirst s s'' :=
  fun c first => h' c (h c first)

lemma KeepsFirst.complainOf (s : State) (token : Token) (complaint : Complaint) :
    KeepsFirst s (s.complainOf token complaint) := by
  unfold State.complainOf
  split
  · exact fun _ => id
  · intro c first
    unfold State.firstComplaint at first ⊢
    obtain ⟨d, there, rfl⟩ := Option.map_eq_some_iff.1 first
    obtain ⟨less, at_⟩ := Array.getElem?_eq_some_iff.1 there
    rw [Array.getElem?_push_lt less, at_]
    rfl

lemma KeepsFirst.settle (ts : List Token) : ∀ s : State, KeepsFirst s (s.settle ts) := by
  induction ts with
  | nil => exact fun _ _ => id
  | cons t ts ih =>
    intro s
    unfold State.settle
    split
    · exact (KeepsFirst.complainOf { s with rest := ts } _ _).trans (ih _)
    · exact fun _ => id

instance : Calm KeepsFirst where
  same h c first := by
    unfold State.firstComplaint at first ⊢
    rw [h.diagnostics]
    exact first
  trans := KeepsFirst.trans
  complains s token complaint _ := .complainOf s token complaint
  fails _ _ _ := id
  advances s := KeepsFirst.settle s.rest { s with previous := s.current }
  calms _ _ := id

instance : Course KeepsFirst := Calm.toCourse

instance {R : State → State → Prop} [Calm R] (inner : Level) [inner.Follows R] (phrase : Nestable) :
    Follows R (inner.read phrase) := by
  cases phrase <;> unfold Level.read <;> infer_instance

instance {R : State → State → Prop} [Calm R] (inner : Level) [inner.Follows R] (t : Plan α) :
    Follows R (t.run inner) := by
  induction t with
  | done a => exact inferInstanceAs (Follows R (pure a))
  | act first plain more ih => exact follows_bind (Elementary.follows first R) ih
  | ask phrase more ih => exact follows_bind (inferInstanceAs (Follows R (inner.read phrase))) fun _ => ih

/-- What ends without complaints had none before. -/
lemma clean_before (act : Compiling α) [Careful act] {s : State} (sane : s.Sane) (clean : (act s).2.Clean) :
    s.Clean := by
  have run : Runs act s _ _ := ⟨rfl, sane, clean⟩
  exact run.start

lemma keepsFirst (act : Compiling α) [Follows KeepsFirst act] (s : State) : KeepsFirst s (act s).2 :=
  Follows.step s

/-- The two actions do the same, or one of them complains of nesting first, or the other one complains. -/
def Parts (act act' : Compiling α) (s : State) : Prop :=
  act s = act' s ∨ (act s).2.firstComplaint = some .tooDeep ∨ ¬(act' s).2.Clean

lemma Parts.bind {act act' : Compiling α} {f f' : α → Compiling β} {s : State} (sane : s.Sane)
    [Careful act'] [∀ a, Follows KeepsFirst (f a)] [∀ a, Careful (f' a)] (first : Parts act act' s)
    (second : ∀ a s', s'.Clean → Parts (f a) (f' a) s') : Parts (act >>= f) (act' >>= f') s := by
  have later : (act' s).2.Sane := (worsens act' s).sane sane
  by_cases clean : (act' s).2.Clean
  · rcases first with same | deep | complained
    · have goesOn := second (act' s).1 (act' s).2 clean
      show Parts (fun _ => f (act s).1 (act s).2) (fun _ => f' (act' s).1 (act' s).2) s
      rw [same]
      exact goesOn
    · exact .inr (.inl (keepsFirst (f (act s).1) (act s).2 _ deep))
    · exact absurd clean complained
  · exact .inr (.inr fun final => clean (clean_before (f' (act' s).1) later final))

lemma firstComplaint_refuseNesting {s : State} (clean : s.Clean) :
    (refuseNesting s).2.firstComplaint = some .tooDeep := by
  refine keepsFirst advance (complainHere .tooDeep s).2 _ ?_
  show (s.complainOf s.current .tooDeep).firstComplaint = _
  unfold State.complainOf State.firstComplaint
  rw [clean.calm, clean.diagnostics]
  rfl

/-- Plans come apart only where what is asked for does. -/
lemma Plan.parts {inner inner' : Level} [inner.Follows KeepsFirst] [inner'.Careful]
    (asks : ∀ phrase s, s.Clean → Parts (inner.read phrase) (inner'.read phrase) s) (t : Plan α) :
    ∀ s : State, s.Clean → Parts (t.run inner) (t.run inner') s := by
  induction t with
  | done a => exact fun _ _ => .inl rfl
  | act first plain more ih =>
    have careful := Elementary.follows first Worsens
    exact fun s clean => Parts.bind clean.sane (.inl rfl) fun b s' clean' => ih b s' clean'
  | ask phrase more ih =>
    exact fun s clean => Parts.bind clean.sane (asks phrase s clean) fun _ s' clean' => ih s' clean'

/-- A greater limit makes no difference before a complaint about nesting. -/
lemma level_parts {n : Nat} : ∀ {m : Nat}, n ≤ m → ∀ (phrase : Nestable) (s : State), s.Clean →
    Parts ((level n).read phrase) ((level m).read phrase) s := by
  induction n with
  | zero =>
    intro m _ phrase s clean
    have same : (level 0).read phrase s = refuseNesting s := by cases phrase <;> rfl
    refine .inr (.inl ?_)
    rw [same]
    exact firstComplaint_refuseNesting clean
  | succ n ih =>
    intro m less phrase s clean
    cases m with
    | zero => exact absurd less (Nat.not_succ_le_zero n)
    | succ m =>
      have same : ∀ n, (level (n + 1)).read phrase = phrase.plan.run (level n) := by
        intro n
        rw [phrase.run_plan]
        cases phrase <;> rfl
      rw [same, same]
      exact Plan.parts (ih (Nat.le_of_succ_le_succ less)) phrase.plan s clean

/-! ## The depth of a program -/

/-- A quiet run of a careful action needs something to be so. -/
class Needs (p : Prop) (act : Compiling α) : Prop where
  careful : Careful act
  holds : ∀ {s a s'}, Runs act s a s' → p

section Needs

variable {p q : Prop} {n a b : Nat}

lemma needs_before {act : Compiling α} {f : α → Compiling β} (first : Needs p act) (later : ∀ a, Careful (f a)) :
    Needs p (act >>= f) where
  careful := have careful := first.careful; inferInstance
  holds run := by
    have careful := first.careful
    obtain ⟨_, _, runs, -⟩ := runs_bind.1 run
    exact first.holds runs

lemma needs_after {act : Compiling α} {f : α → Compiling β} [Careful act] (second : ∀ a, Needs p (f a)) :
    Needs p (act >>= f) where
  careful := have careful := fun a => (second a).careful; inferInstance
  holds run := by
    have careful := fun a => (second a).careful
    obtain ⟨a, _, -, runs⟩ := runs_bind.1 run
    exact (second a).holds runs

instance (act : Compiling α) (f : α → Compiling β) [first : Needs p act] [later : ∀ a, Careful (f a)] :
    Needs p (act >>= f) :=
  needs_before first later

instance (act : Compiling α) (f : α → Compiling β) [Careful act] [second : ∀ a, Needs p (f a)] :
    Needs p (act >>= f) :=
  needs_after second

-- What comes next is looked at just once where it does not depend on the result.
instance (act : Compiling α) (next : Compiling β) [first : Needs p act] [later : Careful next] :
    Needs p (act >>= fun _ => next) :=
  needs_before first fun _ => later

instance (act : Compiling α) (next : Compiling β) [Careful act] [second : Needs p next] :
    Needs p (act >>= fun _ => next) :=
  needs_after fun _ => second

instance (act : Compiling α) [careful : Careful act] : Needs (0 ≤ n) act := ⟨careful, fun _ => Nat.zero_le n⟩

lemma needs_max {act : Compiling α} (first : Needs (a ≤ n) act) (second : Needs (b ≤ n) act) :
    Needs (max a b ≤ n) act :=
  ⟨first.careful, fun run => Nat.max_le.2 ⟨first.holds run, second.holds run⟩⟩

instance (act : Compiling α) [first : Needs (a ≤ n) act] [second : Needs (b ≤ n) act] : Needs (max a b ≤ n) act :=
  needs_max first second

lemma needs_succ_max {act : Compiling α} (first : Needs (a + 1 ≤ n) act) (second : Needs (b + 1 ≤ n) act) :
    Needs (max a b + 1 ≤ n) act :=
  ⟨first.careful, fun run => Nat.succ_le_of_lt (Nat.max_lt.2 ⟨first.holds run, second.holds run⟩)⟩

instance (act : Compiling α) [first : Needs (a + 1 ≤ n) act] [second : Needs (b + 1 ≤ n) act] :
    Needs (max a b + 1 ≤ n) act :=
  needs_succ_max first second

end Needs

end Lox.Compile

namespace Lox.Syntax

open Compile

instance (depth n : Nat) (phrase : Nat → Compiling Unit) [inside : ∀ n, Needs (depth ≤ n) (phrase n)] :
    Needs (depth + 1 ≤ n) (within n phrase) where
  careful := have careful := fun n => (inside n).careful; inferInstance
  holds run := by
    cases n with
    | zero =>
      have run : Runs refuseNesting _ _ _ := run
      unfold refuseNesting at run
      obtain ⟨_, _, complains, -⟩ := runs_bind.1 run
      exact absurd complains not_runs_complainHere
    | succ n => exact Nat.succ_le_succ ((inside n).holds run)

instance {s : ExprSort} (e : Expr s) (n count : Nat) : Needs (e.depth ≤ n) (e.build n count) := by
  induction e generalizing n count <;> unfold Expr.depth Expr.build <;> infer_instance

instance (e : Expr .expression) (n : Nat) : Needs (e.depth + 1 ≤ n) (e.expression n) := by
  unfold Expr.expression; infer_instance

instance (x : String) (value : Option (Expr .expression)) (n : Nat) :
    Needs (clauseDepth value ≤ n) (buildBinding x value n) := by
  cases value <;> unfold clauseDepth buildBinding <;> dsimp only [Option.elim] <;> infer_instance

instance (n : Nat) (first : Initializer) : Needs (first.depth ≤ n) (first.build n) := by
  cases first <;> unfold Initializer.depth Initializer.build <;> infer_instance

instance (n : Nat) (c : Option (Expr .expression)) : Needs (clauseDepth c ≤ n) (buildCondition n c) := by
  cases c <;> unfold clauseDepth buildCondition <;> dsimp only [Option.elim] <;> infer_instance

instance (n start : Nat) (step : Option (Expr .expression)) :
    Needs (clauseDepth step ≤ n) (buildIncrement n start step) := by
  cases step <;> unfold clauseDepth buildIncrement <;> dsimp only [Option.elim] <;> infer_instance

instance (p : Prop) (body : Compiling Unit) [Careful body] [Needs p body] (loopVariable : Option (String × Nat)) :
    Needs p (forBody (bodyLevel body) loopVariable) := by
  cases loopVariable <;> unfold forBody bodyLevel <;> infer_instance

instance (p : Prop) (kind : BodyKind) (x : String) (params : List String) (body : Compiling Unit) [Careful body]
    [Needs p body] : Needs p (buildFunction kind x params body) := by
  unfold buildFunction; infer_instance

instance {s : StmtSort} (t : Stmt s) (n : Nat) : Needs (t.depth ≤ n) (t.build n) := by
  induction t generalizing n with
  | ret value =>
    cases value <;> unfold Stmt.depth Stmt.build clauseDepth <;> dsimp only [Option.elim] <;> infer_instance
  | ifElse c t e iht ihe =>
    unfold Stmt.depth Stmt.build
    exact needs_succ_max inferInstance inferInstance
  | cls x superclass ms ih =>
    unfold Stmt.depth Stmt.build
    exact needs_after fun _ => needs_after fun _ => needs_after fun _ => inferInstance
  | forLoop =>
    unfold Stmt.depth Stmt.build
    exact needs_after fun _ => needs_after fun _ => needs_after fun _ =>
      needs_max (needs_max inferInstance inferInstance) (needs_max inferInstance inferInstance)
  | _ => unfold Stmt.depth Stmt.build; infer_instance

/-- Compiles a program, `n` levels of nesting being left. -/
def Stmt.buildAt (ds : Stmt .declarations) (n : Nat) : Compiling Unit := do
  advance
  ds.build n
  advance
  let _ ← closeBody

/-- The compiler and building do the same for a whole source whatever the limit is, or both complain. -/
lemma scriptAt_agrees {source : String} {ds : Stmt .declarations}
    (reads : ReadsProgram ((Token.scan source).toList.map Token.word) ds) (strings : StringTable)
    (serial n : Nat) :
    Agree (scriptAt (level n)) (ds.buildAt n) (State.start (Token.scan source) strings serial) := by
  have faces := start_faces reads strings serial
  obtain ⟨rest, tree, last⟩ := reads
  generalize State.start (Token.scan source) strings serial = start at faces ⊢
  have whole := program_agrees n (advance start).2.budget tree last faces faces.budget
  exact whole.bind fun _ => do let _ ← closeBody

/-- A lawful program is built without complaints where there are levels enough. -/
lemma Stmt.buildAt_clean {tokens : Array Token} {ds : Stmt .declarations} {n : Nat} (strings : StringTable)
    (serial : Nat) (proper : ∀ t ∈ tokens.toList, ∀ fault, t.kind ≠ .malformed fault)
    (stands : ds.Stands n (.opened .script []) [] true none) (lawful : LawfulProgram ds) :
    (ds.buildAt n (State.start tokens strings serial)).2.Clean := by
  let act : Compiling Unit := do
    advance
    ds.build n
    advance
    emitReturn
  have body : Decides ⟨[.opened .script []], []⟩ act (LawfulProgram ds) _ :=
    decides_advance.after fun _ => (ds.decides stands).before fun _ =>
      decides_advance.after fun _ => decides_emitReturn
  have clean : (State.start tokens strings serial).Clean := ⟨rfl, rfl, rfl⟩
  have holds := start_holds strings serial proper
  generalize State.start tokens strings serial = start at clean holds
  have taken : (ds.buildAt n start).2 = (takeBody (act start).2).2 := rfl
  rw [taken, takeBody_clean]
  exact (body.lawful lawful start clean holds).1

instance (ds : Stmt .declarations) (n : Nat) : Needs (ds.depth ≤ n) (ds.buildAt n) := by
  unfold Stmt.buildAt; infer_instance

end Lox.Syntax

namespace Lox

open Compile Syntax

/-- What is complained of first. -/
def Compilation.firstComplaint (c : Compilation) : Option Complaint :=
  match c.outcome with
  | .ok _ => none
  | .error diagnostics => diagnostics[0]?.map (·.complaint)

variable (source : String) (strings : StringTable) (serial : Nat)

lemma firstComplaint_compile :
    (compile source strings serial).firstComplaint =
      (script (.start (Token.scan source) strings serial)).2.firstComplaint := by
  unfold Compilation.firstComplaint compile StateT.run
  generalize script (State.start (Token.scan source) strings serial) = result
  obtain ⟨p, s⟩ := result
  dsimp only
  by_cases quiet : s.diagnostics.isEmpty
  · rw [if_pos quiet, State.firstComplaint, Array.isEmpty_iff.1 quiet]
    rfl
  · rw [if_neg quiet, State.firstComplaint]

/-- A program that only its depth speaks against is rejected by a complaint about that. -/
lemma tooDeep_iff {source : String} {ds : Stmt .declarations}
    (reads : ReadsProgram ((Token.scan source).toList.map Token.word) ds) (lawful : LawfulProgram ds)
    (constants : Room (ds.constants [] true [BodyKind.script.slotZero]))
    (fits : ds.Fits .script [] true [BodyKind.script.slotZero]) (strings : StringTable) (serial : Nat) :
    (compile source strings serial).firstComplaint = some .tooDeep ↔ maxNesting < ds.depth := by
  have proper := reads.proper
  have whole : ds.Proper := by
    obtain ⟨rest, tree, -⟩ := reads
    exact (tree.proper (Token.properWords_scan source)).1
  have agrees := scriptAt_agrees reads strings serial
  have clean : ∀ n, ds.depth ≤ n →
      (scriptAt (level n) (.start (Token.scan source) strings serial)).2.Clean := fun n deep => by
    have built := Stmt.buildAt_clean strings serial proper (Stmt.stands_script whole deep constants fits) lawful
    exact ((agrees n).runs.2 ⟨rfl, fun panicking => absurd panicking Bool.false_ne_true, built⟩ :
      Runs _ _ _ _).eq ▸ built
  rw [firstComplaint_compile, script_state]
  constructor
  · intro complained
    by_contra deep
    have empty := (clean maxNesting (Nat.le_of_not_lt deep)).diagnostics
    unfold State.firstComplaint at complained
    rw [empty] at complained
    exact nomatch complained
  · intro deep
    have parts := Plan.parts (level_parts (Nat.le_of_lt deep)) (Planned.plan scriptAt)
      (.start (Token.scan source) strings serial) ⟨rfl, rfl, rfl⟩
    rw [Planned.run_plan, Planned.run_plan] at parts
    rcases parts with same | first | complained
    · exfalso
      have run : Runs (scriptAt (level maxNesting)) (.start (Token.scan source) strings serial) _ _ :=
        ⟨same, fun panicking => absurd panicking Bool.false_ne_true, clean ds.depth (Nat.le_refl _)⟩
      have enough := Needs.holds (p := ds.depth ≤ maxNesting) ((agrees maxNesting).runs.1 run)
      exact absurd deep (Nat.not_lt_of_le enough)
    · exact first
    · exact absurd (clean ds.depth (Nat.le_refl _)) complained

/-- The depth of nesting is within the limit at every step of a compilation, a nested phrase leaves it as it
was, and it is zero in the end; all that the phrases do besides is what is planned for them once and for all.
A program that only its depth may speak against is rejected by a complaint about nesting first exactly if
it is deeper than the limit. -/
theorem compile_nesting (source : String) (strings : StringTable) (serial : Nat) :
    (∀ inner, (Planned.plan scriptAt).run inner = scriptAt inner ∧
      ∀ phrase : Nestable, phrase.plan.run inner = phrase.body inner) ∧
    (∀ r, (Reading.start source strings serial).Leads r →
      r.depth ≤ maxNesting ∧ ∀ phrase more, r.plan = .ask phrase more →
        r.LeadsInside r.around ⟨((level (maxNesting - r.depth)).read phrase r.state).2, more, r.around⟩) ∧
    (∃ final, (Reading.start source strings serial).Leads final ∧ final.step = none ∧ final.depth = 0 ∧
      final.state = (script (.start (Token.scan source) strings serial)).2) ∧
    ∀ ds, ReadsProgram ((Token.scan source).toList.map Token.word) ds → LawfulProgram ds →
      Room (ds.constants [] true [BodyKind.script.slotZero]) →
      ds.Fits .script [] true [BodyKind.script.slotZero] →
      ((compile source strings serial).firstComplaint = some .tooDeep ↔ maxNesting < ds.depth) := by
  have start : (Reading.start source strings serial).depth ≤ maxNesting := Nat.zero_le _
  refine ⟨fun inner => ⟨Planned.run_plan inner, fun phrase => phrase.run_plan inner⟩, ?_, ?_,
    fun ds reads lawful constants fits => tooDeep_iff reads lawful constants fits strings serial⟩
  · intro r leads
    have deep := leads.depth_le start
    refine ⟨deep, fun phrase more asks => ?_⟩
    obtain ⟨s, plan, around⟩ := r
    obtain rfl : plan = .ask phrase more := asks
    exact asks_lead (Nat.add_sub_cancel' deep) phrase more s
  · have whole : Reading.LeadsInside [] _ _ :=
      Planned.leads scriptAt (Nat.zero_add maxNesting) (.start (Token.scan source) strings serial)
    exact ⟨_, whole.leads, rfl, rfl, rfl⟩

/-- Some negations of a value. -/
def negations (n : Nat) : Expr .expression := (Expr.unary .bang)^[n] (.literal .kwNil)

lemma negations_induction {P : Expr .expression → Prop} (value : P (.literal .kwNil))
    (negation : ∀ e, P e → P (.unary .bang e)) (n : Nat) : P (negations n) :=
  Function.Iterate.rec P value negation n

/-- A statement, an expression and one operand more than there may be after them. -/
theorem compile_nesting_negations :
    maxNesting < (Stmt.declare (.statement (.expression (negations 127))) .noDeclarations).depth ∧
      (compile (String.ofList (List.replicate 127 '!') ++ "nil;") .empty 0).firstComplaint = some .tooDeep := by
  let ds : Stmt .declarations := .declare (.statement (.expression (negations 127))) .noDeclarations
  have words : (Token.scan (String.ofList (List.replicate 127 '!') ++ "nil;")).toList.map Token.word =
      ds.words ++ [.mark .endOfInput] := by decide +kernel
  have operand : (negations 127).Canonical ∧ Precedence.unary.rank ≤ (negations 127).rank :=
    negations_induction (P := fun e => e.Canonical ∧ Precedence.unary.rank ≤ e.rank) ⟨⟨_, rfl⟩, by decide⟩
      (fun _ operand => ⟨⟨⟨_, rfl⟩, operand⟩, Nat.le_refl _⟩) 127
  have reads := (show ds.Canonical from ⟨operand.1, trivial⟩).reads_program
  rw [← words] at reads
  have deep : maxNesting < ds.depth := by decide +kernel
  have lawful : LawfulProgram ds :=
    ⟨negations_induction (P := fun e => e.Lawful none []) trivial (fun _ => id) 127, trivial⟩
  have constants : ds.constants [] true [BodyKind.script.slotZero] = [] := by decide +kernel
  have room : Room (ds.constants [] true [BodyKind.script.slotZero]) := by
    rw [constants]
    exact Nat.zero_le _
  have fits : ds.Fits .script [] true [BodyKind.script.slotZero] :=
    ⟨negations_induction (P := fun e => e.Fits) trivial (fun _ => id) 127, trivial⟩
  have nested := (compile_nesting (String.ofList (List.replicate 127 '!') ++ "nil;") .empty 0).2.2.2 ds reads
  exact ⟨deep, (nested lawful room fits).2 deep⟩

end Lox
