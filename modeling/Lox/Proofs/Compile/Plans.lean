import Lox.Proofs.Compile.Course
import Mathlib.Logic.Relation

/-!
# Plans of phrases

What reading a phrase does, up to the phrases nested in it, is a plan: plain actions and, in between,
phrases that are asked for and read by somebody else.  An action that uses a level has one plan for all
levels (`Planned`), with one instance for each action: so it reads nested phrases through its level
only, and does nothing with the level but ask it for a phrase.

Reading a source step by step, with the phrases around the one at hand on a stack, shows how deep it is
nested (`Reading.step`): a phrase that is asked for is put onto the others unless there are as many as
there may be.  This is how the compiler reads (`Planned.leads`), and what is planned leaves the depth as it was.
-/

namespace Lox.Compile

open Relation (ReflTransGen)

variable {α β γ : Type}

/-! ## Plans -/

/-- A calm relation between states. -/
structure Habit where
  rel : State → State → Prop
  calm : Calm rel

instance (h : Habit) : Calm h.rel := h.calm

instance (h : Habit) : Course h.rel := h.calm.toCourse

/-- An action that nests nothing follows every calm relation. -/
class Elementary (act : Compiling α) : Prop where
  habits : ∀ h : Habit, Follows h.rel act

instance (act : Compiling α) [habits : ∀ h : Habit, Follows h.rel act] : Elementary act := ⟨habits⟩

lemma Elementary.follows (act : Compiling α) [plain : Elementary act] (R : State → State → Prop) [calm : Calm R] :
    Follows R act := plain.habits ⟨R, calm⟩

/-- What may be nested in a phrase. -/
inductive Nestable where
  | statement
  | operators (least : Precedence)
  | block
  deriving DecidableEq, Repr

/-- What is to be done for a phrase: nothing, an action and more, or a nested phrase and more. -/
inductive Plan (α : Type) : Type 1 where
  | done (a : α)
  | act {β : Type} (first : Compiling β) (plain : Elementary first) (more : β → Plan α)
  | ask (phrase : Nestable) (more : Plan α)

/-- Has a nested phrase read. -/
def Level.read (inner : Level) : Nestable → Compiling Unit
  | .statement => inner.statement
  | .operators least => inner.operators least
  | .block => inner.block

/-- What the text of a phrase is read by, where more is nested in it. -/
def Nestable.body (inner : Level) : Nestable → Compiling Unit
  | .statement => statementBody inner
  | .operators least => operatorsBody inner least
  | .block => blockBody inner

namespace Plan

/-- Does what is planned. -/
def run (inner : Level) : Plan α → Compiling α
  | .done a => pure a
  | .act first _ more => do (more (← first)).run inner
  | .ask phrase more => do
    inner.read phrase
    more.run inner

/-- One plan after another. -/
def bind (f : α → Plan β) : Plan α → Plan β
  | .done a => f a
  | .act first plain more => .act first plain fun b => (more b).bind f
  | .ask phrase more => .ask phrase (more.bind f)

lemma run_bind (inner : Level) (f : α → Plan β) (t : Plan α) :
    (t.bind f).run inner = t.run inner >>= fun a => (f a).run inner := by
  induction t with
  | done a => rfl
  | act first plain more ih => exact congrArg (first >>= ·) (funext ih)
  | ask phrase more ih => exact congrArg (inner.read phrase >>= fun _ => ·) ih

end Plan

/-! ## Actions with plans -/

/-- An action with one plan for all levels. -/
class Planned (act : Level → Compiling α) where
  plan : Plan α
  run_plan : ∀ inner, plan.run inner = act inner

namespace Planned

instance (act : Compiling α) [plain : Elementary act] : Planned fun _ => act := ⟨.act act plain .done, fun _ => rfl⟩

instance : Planned fun inner => inner.statement := ⟨.ask .statement (.done ()), fun _ => rfl⟩

instance (least : Precedence) : Planned fun inner => inner.operators least :=
  ⟨.ask (.operators least) (.done ()), fun _ => rfl⟩

instance : Planned fun inner => inner.block := ⟨.ask .block (.done ()), fun _ => rfl⟩

/-- A plan goes on with one for each result. -/
@[reducible] def bind {act : Level → Compiling α} {f : Level → α → Compiling β} (first : Planned act)
    (second : ∀ a, Planned fun inner => f inner a) : Planned fun inner => act inner >>= f inner where
  plan := first.plan.bind fun a => (second a).plan
  run_plan inner := by
    rw [Plan.run_bind, first.run_plan]
    exact congrArg (act inner >>= ·) (funext fun a => (second a).run_plan inner)

instance (act : Level → Compiling α) (f : Level → α → Compiling β) [first : Planned act]
    [second : ∀ a, Planned fun inner => f inner a] : Planned fun inner => act inner >>= f inner :=
  first.bind second

-- What comes next is looked at just once where it does not depend on the result.
instance (act : Level → Compiling α) (next : Level → Compiling β) [first : Planned act] [second : Planned next] :
    Planned fun inner => act inner >>= fun _ => next inner :=
  first.bind fun _ => second

instance (act : Level → Compiling α) (f : Level → α → Compiling β) (g : Level → β → Compiling γ)
    [first : Planned act] [second : ∀ a, Planned fun inner => f inner a] [third : ∀ b, Planned fun inner => g inner b] :
    Planned fun inner => act inner >>= fun a => f inner a >>= g inner :=
  first.bind fun a => (second a).bind third

instance (c : Prop) [Decidable c] (x y : Level → Compiling α) [Planned x] [Planned y] :
    Planned fun inner => if c then x inner else y inner := by
  split <;> infer_instance

instance (choice : Level → Compiling Bool) (x y : Level → Compiling α) [first : Planned choice] [Planned x]
    [Planned y] : Planned fun inner => choice inner >>= fun b => if b then x inner else y inner :=
  first.bind fun _ => inferInstance

instance (c : Prop) [Decidable c] (act : Level → Compiling α) (next : Level → Compiling β) [Planned act]
    [Planned next] : Planned fun inner => if c then act inner >>= fun _ => next inner else next inner := by
  split <;> infer_instance

/-! ## Expressions -/

instance : Planned fun inner => inner.expression :=
  inferInstanceAs (Planned fun inner => inner.operators .assignment)

instance (fuel count : Nat) : Planned fun inner => arguments inner fuel count := by
  induction fuel generalizing count with
  | zero => unfold arguments; infer_instance
  | succ fuel ih => unfold arguments; dsimp only; infer_instance

instance : Planned argumentList := by unfold argumentList; dsimp only; infer_instance

instance (canAssign : Bool) : Planned fun inner => variableUse inner canAssign := by
  unfold variableUse; dsimp only; infer_instance

instance : Planned superAccess := by
  unfold superAccess
  refine Planned.bind inferInstance fun s => ?_
  dsimp only
  split <;> infer_instance

instance (canAssign : Bool) (start : Leading) : Planned fun inner => readLeading inner canAssign start := by
  cases start <;> unfold readLeading <;> dsimp only <;> infer_instance

instance (canAssign : Bool) : Planned fun inner => property inner canAssign := by
  unfold property; dsimp only; infer_instance

instance (canAssign : Bool) (p : Precedence) (operator : Trailing) :
    Planned fun inner => readTrailing inner canAssign p operator := by
  cases operator <;> unfold readTrailing <;> infer_instance

instance (least : Precedence) (canAssign : Bool) (fuel : Nat) :
    Planned fun inner => trailingOperators inner least canAssign fuel := by
  induction fuel with
  | zero => unfold trailingOperators; infer_instance
  | succ fuel ih =>
    unfold trailingOperators
    refine Planned.bind inferInstance fun s => ?_
    split <;> infer_instance

instance (least : Precedence) : Planned fun inner => operatorsBody inner least := by
  unfold operatorsBody
  refine Planned.bind inferInstance fun _ => Planned.bind inferInstance fun s => ?_
  dsimp only
  split <;> infer_instance

/-! ## Statements -/

instance (kind : BodyKind) : Planned fun inner => function inner kind := by
  unfold function
  dsimp only
  refine Planned.bind inferInstance fun s => ?_
  iterate 3 refine Planned.bind inferInstance fun _ => ?_
  infer_instance

instance : Planned functionDeclaration := by unfold functionDeclaration; infer_instance

instance : Planned method := by unfold method; infer_instance

instance (fuel : Nat) : Planned fun inner => methods inner fuel := by
  induction fuel with
  | zero => unfold methods; infer_instance
  | succ fuel ih => unfold methods; infer_instance

instance : Planned classDeclaration := by
  unfold classDeclaration
  dsimp only
  refine Planned.bind inferInstance fun _ => Planned.bind inferInstance fun s => ?_
  iterate 6 refine Planned.bind inferInstance fun _ => ?_
  infer_instance

instance : Planned variableDeclaration := by unfold variableDeclaration; dsimp only; infer_instance

instance : Planned declaration := by
  unfold declaration
  dsimp only
  refine Planned.bind inferInstance fun cls => ?_
  infer_instance

instance (fuel : Nat) : Planned fun inner => declarations inner fuel := by
  induction fuel with
  | zero => unfold declarations; infer_instance
  | succ fuel ih => unfold declarations; infer_instance

instance : Planned blockBody := by unfold blockBody; infer_instance

instance : Planned printStatement := by unfold printStatement; infer_instance

instance : Planned expressionStatement := by unfold expressionStatement; infer_instance

instance : Planned returnStatement := by
  unfold returnStatement
  dsimp only
  refine Planned.bind inferInstance fun s => ?_
  infer_instance

instance : Planned ifStatement := by unfold ifStatement; infer_instance

instance : Planned whileStatement := by
  unfold whileStatement
  dsimp only
  refine Planned.bind inferInstance fun s => ?_
  iterate 3 refine Planned.bind inferInstance fun _ => ?_
  infer_instance

instance : Planned forInitializer := by unfold forInitializer; infer_instance

instance : Planned forCondition := by unfold forCondition; infer_instance

instance (start : Nat) : Planned fun inner => forIncrement inner start := by
  unfold forIncrement
  refine Planned.bind inferInstance fun closes => ?_
  split
  · infer_instance
  · refine Planned.bind inferInstance fun enter => Planned.bind inferInstance fun s => ?_
    infer_instance

instance (loopVariable : Option (String × Nat)) : Planned fun inner => forBody inner loopVariable := by
  cases loopVariable <;> unfold forBody <;> infer_instance

instance : Planned forStatement := by unfold forStatement; infer_instance

instance : Planned statementBody := by unfold statementBody; infer_instance

/-! ## Programs -/

instance (fuel : Nat) : Planned fun outermost => program outermost fuel := by
  induction fuel with
  | zero => unfold program; infer_instance
  | succ fuel ih => unfold program; infer_instance

end Planned

/-- Compiles the tokens ahead at an outermost level. -/
def scriptAt (outermost : Level) : Compiling Unit := do
  advance
  program outermost (← get).budget
  let _ ← closeBody

instance : Planned scriptAt := by unfold scriptAt; infer_instance

/-! ## Reading step by step -/

instance Nestable.planned (phrase : Nestable) : Planned fun inner => phrase.body inner := by
  cases phrase <;> unfold Nestable.body <;> dsimp only <;> infer_instance

/-- What is to be done for a phrase. -/
def Nestable.plan (phrase : Nestable) : Plan Unit := phrase.planned.plan

lemma Nestable.run_plan (phrase : Nestable) (inner : Level) : phrase.plan.run inner = phrase.body inner :=
  phrase.planned.run_plan inner

/-- A compilation in the middle of a phrase. -/
structure Reading where
  state : State
  /-- What is still to be done for the phrase. -/
  plan : Plan Unit
  /-- What is to be done for the phrases around it, the nearest first. -/
  around : List (Plan Unit)

namespace Reading

/-- How deep the phrase is nested. -/
def depth (r : Reading) : Nat := r.around.length

/-- The next thing that is done.  A nested phrase is gone into, unless it is too deep. -/
def step (r : Reading) : Option Reading :=
  match r.plan with
  | .done _ =>
    match r.around with
    | [] => none
    | plan :: around => some { r with plan, around }
  | .act first _ more => some { r with state := (first r.state).2, plan := more (first r.state).1 }
  | .ask phrase more =>
    if r.depth < maxNesting then some { r with plan := phrase.plan, around := more :: r.around }
    else some { r with state := (refuseNesting r.state).2, plan := more }

/-- What comes after what. -/
def Leads : Reading → Reading → Prop := ReflTransGen fun r r' => r.step = some r'

/-- What comes after what while the phrases around stay where they are. -/
def LeadsInside (around : List (Plan Unit)) : Reading → Reading → Prop :=
  ReflTransGen fun r r' => r.step = some r' ∧ around <:+ r.around ∧ around <:+ r'.around

variable {r r' : Reading} {around : List (Plan Unit)}

lemma LeadsInside.leads (h : LeadsInside around r r') : Leads r r' :=
  ReflTransGen.mono (fun _ _ both => both.1) _ _ h

lemma LeadsInside.outside {plan : Plan Unit} (h : LeadsInside (plan :: around) r r') : LeadsInside around r r' :=
  ReflTransGen.mono (fun _ _ both =>
    ⟨both.1, (List.suffix_cons _ _).trans both.2.1, (List.suffix_cons _ _).trans both.2.2⟩) _ _ h

/-- One step does not go deeper than there may be. -/
lemma depth_step (next : r.step = some r') (deep : r.depth ≤ maxNesting) : r'.depth ≤ maxNesting := by
  obtain ⟨s, plan, around⟩ := r
  unfold step at next
  cases plan with
  | done =>
    cases around with
    | nil => exact nomatch next
    | cons plan around =>
      obtain rfl := Option.some.inj next
      exact Nat.le_of_succ_le deep
  | act first plain more =>
    obtain rfl := Option.some.inj next
    exact deep
  | ask phrase more =>
    dsimp only at next
    split at next
    · next less =>
      obtain rfl := Option.some.inj next
      exact less
    · obtain rfl := Option.some.inj next
      exact deep

lemma Leads.depth_le (leads : Leads r r') (deep : r.depth ≤ maxNesting) : r'.depth ≤ maxNesting := by
  induction leads with
  | refl => exact deep
  | tail _ next ih => exact depth_step next ih

end Reading

open Reading

/-- What is planned is done, if what is asked for on the way is. -/
lemma Plan.leads {inner : Level} {around : List (Plan Unit)}
    (asks : ∀ phrase more s, LeadsInside around ⟨s, .ask phrase more, around⟩ ⟨(inner.read phrase s).2, more, around⟩) :
    ∀ (t : Plan Unit) (s : State),
      LeadsInside around ⟨s, t, around⟩ ⟨(t.run inner s).2, .done (), around⟩ := by
  intro t
  induction t with
  | done => exact fun s => .refl
  | act first plain more ih =>
    exact fun s => .head ⟨rfl, List.suffix_refl _, List.suffix_refl _⟩ (ih (first s).1 (first s).2)
  | ask phrase more ih => exact fun s => (asks phrase more s).trans (ih (inner.read phrase s).2)

/-- A phrase that is asked for is read at the level that is left, and then the phrases around go on as if
nothing had been there. -/
lemma asks_lead {n : Nat} : ∀ {around : List (Plan Unit)}, around.length + n = maxNesting →
    ∀ (phrase : Nestable) (more : Plan Unit) (s : State),
      LeadsInside around ⟨s, .ask phrase more, around⟩ ⟨((level n).read phrase s).2, more, around⟩ := by
  induction n with
  | zero =>
    intro around left phrase more s
    have refuses : Reading.step ⟨s, .ask phrase more, around⟩ = some ⟨(refuseNesting s).2, more, around⟩ := by
      unfold Reading.step
      exact if_neg (Nat.not_lt_of_le (Nat.le_of_eq left.symm))
    have same : (level 0).read phrase s = refuseNesting s := by cases phrase <;> rfl
    rw [same]
    exact .single ⟨refuses, List.suffix_refl _, List.suffix_refl _⟩
  | succ n ih =>
    intro around left phrase more s
    have goesIn : Reading.step ⟨s, .ask phrase more, around⟩ = some ⟨s, phrase.plan, more :: around⟩ := by
      unfold Reading.step
      refine if_pos ?_
      show around.length < maxNesting
      omega
    have nested : LeadsInside around ⟨s, phrase.plan, more :: around⟩
        ⟨(phrase.plan.run (level n) s).2, .done (), more :: around⟩ :=
      (Plan.leads (ih (by rw [List.length_cons]; omega)) phrase.plan s).outside
    have same : (level (n + 1)).read phrase s = phrase.plan.run (level n) s := by
      rw [phrase.run_plan]
      cases phrase <;> rfl
    rw [same]
    refine .head ⟨goesIn, List.suffix_refl _, List.suffix_cons _ _⟩ (nested.trans ?_)
    exact .single ⟨rfl, List.suffix_cons _ _, List.suffix_refl _⟩

/-- At every depth what is planned is done at the level that is left, and leaves the depth as it was. -/
lemma Planned.leads (act : Level → Compiling Unit) [planned : Planned act] {n : Nat} {around : List (Plan Unit)}
    (left : around.length + n = maxNesting) (s : State) :
    LeadsInside around ⟨s, Planned.plan act, around⟩ ⟨(act (level n) s).2, .done (), around⟩ := by
  have leads := Plan.leads (asks_lead left) planned.plan s
  rwa [planned.run_plan] at leads

end Lox.Compile
