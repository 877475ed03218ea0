import Lox.Compile.Program
import Mathlib.Tactic.Lemma

/-!
# The course of a compilation

What is true of a state and all later ones because of how the compilation moves on, complains and
fails.  A relation between states that the elementary actions follow (`Course`) is followed by all
actions (`Follows`), with one instance for each action.  Such a relation says nothing about the
bodies, the classes, the string objects and the finished functions, which are none of its business.

Panicking stops at the end of a declaration.  A relation that is kept by that, too, is `Calm`, and is
followed by whole programs; other relations need an argument of their own for blocks.
-/

namespace Lox.Compile

variable {α β γ : Type}

/-- The place among the tokens, the complaints and the faults are the same. -/
structure SameCourse (s s' : State) : Prop where
  previous : s'.previous = s.previous := by rfl
  current : s'.current = s.current := by rfl
  rest : s'.rest = s.rest := by rfl
  budget : s'.budget = s.budget := by rfl
  panicking : s'.panicking = s.panicking := by rfl
  diagnostics : s'.diagnostics = s.diagnostics := by rfl
  fault : s'.fault = s.fault := by rfl

/-- A relation between a state and the later ones, followed by the elementary actions. -/
class Course (R : State → State → Prop) : Prop where
  same : ∀ {s s'}, SameCourse s s' → R s s'
  trans : ∀ {s s' s''}, R s s' → R s' s'' → R s s''
  complains : ∀ s token complaint, token = s.previous ∨ token = s.current →
    R s (State.complainOf s token complaint)
  fails : ∀ s fault, R s (fail fault s).2
  advances : ∀ s, R s (advance s).2

/-- The relation does not mind when panicking stops. -/
class Calm (R : State → State → Prop) : Prop extends Course R where
  calms : ∀ s : State, R s { s with panicking := false }

/-- An action follows a relation. -/
class Follows (R : State → State → Prop) (act : Compiling α) : Prop where
  step : ∀ s, R s (act s).2

/-- The actions for nested phrases follow a relation. -/
class Level.Follows (inner : Level) (R : State → State → Prop) : Prop where
  statement : Compile.Follows R inner.statement
  operators : ∀ p, Compile.Follows R (inner.operators p)
  block : Compile.Follows R inner.block

attribute [instance] Level.Follows.statement Level.Follows.operators Level.Follows.block

variable {R : State → State → Prop} [Course R]

lemma Course.refl (s : State) : R s s := Course.same {}

/-! ## Combinators -/

instance (a : α) : Follows R (pure a : Compiling α) := ⟨Course.refl⟩

lemma follows_bind {act : Compiling α} {f : α → Compiling β} (first : Follows R act)
    (second : ∀ a, Follows R (f a)) : Follows R (act >>= f) :=
  ⟨fun s => Course.trans (first.step s) ((second (act s).1).step (act s).2)⟩

section Sequences

variable (act : Compiling α) [first : Follows R act]

instance (f : α → Compiling β) [second : ∀ a, Follows R (f a)] : Follows R (act >>= f) :=
  follows_bind first second

-- What comes next is looked at just once where it does not depend on the result.
instance (next : Compiling β) [second : Follows R next] : Follows R (act >>= fun _ => next) :=
  follows_bind first fun _ => second

instance (f : α → Compiling β) (g : β → Compiling γ) [second : ∀ a, Follows R (f a)]
    [third : ∀ b, Follows R (g b)] : Follows R (act >>= fun a => f a >>= g) :=
  follows_bind first fun a => follows_bind (second a) third

instance (choice : Compiling Bool) (x y : Compiling β) [Follows R choice] [Follows R x] [Follows R y] :
    Follows R (choice >>= fun b => if b then x else y) :=
  follows_bind inferInstance fun b => by split <;> infer_instance

instance (c : Prop) [Decidable c] (next : Compiling β) [Follows R next] :
    Follows R (if c then act >>= fun _ => next else next) := by
  split <;> infer_instance

end Sequences

instance : Follows R (get : Compiling State) := ⟨Course.refl⟩

instance (c : Prop) [Decidable c] (x y : Compiling α) [Follows R x] [Follows R y] :
    Follows R (if c then x else y) := by
  split <;> infer_instance

instance (l : List α) (f : α → Compiling PUnit) [∀ a, Follows R (f a)] :
    Follows R (l.forM f) := by
  induction l with
  | nil => exact inferInstanceAs (Follows R (pure ()))
  | cons a l ih => exact inferInstanceAs (Follows R (f a >>= fun _ => l.forM f))

/-! ## Elementary actions -/

instance (complaint : Complaint) : Follows R (complain complaint) :=
  ⟨fun s => Course.complains s s.previous complaint (.inl rfl)⟩

instance (complaint : Complaint) : Follows R (complainHere complaint) :=
  ⟨fun s => Course.complains s s.current complaint (.inr rfl)⟩

instance (fault : Fault) : Follows R (fail fault) := ⟨fun s => Course.fails s fault⟩

instance : Follows R advance := ⟨Course.advances⟩

instance (f : Body → Body) : Follows R (modifyBody f) := ⟨fun _ => Course.same {}⟩

instance (i : Instr) : Follows R (emit i) := ⟨fun _ => Course.same {}⟩

instance (content : String) : Follows R (internString content) := ⟨fun _ => Course.same {}⟩

instance (kind : BodyKind) (name : String) : Follows R (openBody kind name) :=
  ⟨fun _ => Course.same {}⟩

instance (f : State → List Bool) :
    Follows R (modify fun s => { s with classes := f s } : Compiling Unit) :=
  ⟨fun _ => Course.same {}⟩

instance [Calm R] : Follows R (modify fun s => { s with panicking := false } : Compiling Unit) :=
  ⟨Calm.calms⟩

/-! ## Moving on -/

instance (kind : TokenKind) : Follows R (check kind) := by unfold check; infer_instance

instance (kind : TokenKind) : Follows R (accept kind) := by unfold accept; infer_instance

instance (kind : TokenKind) (what : String) : Follows R (expect kind what) := by
  unfold expect; infer_instance

instance : Follows R atBlockEnd := by unfold atBlockEnd; infer_instance

instance (fuel : Nat) : Follows R (skipToStatement fuel) := by
  induction fuel with
  | zero => unfold skipToStatement; infer_instance
  | succ fuel ih => unfold skipToStatement; infer_instance

instance [Calm R] : Follows R synchronize := by unfold synchronize; infer_instance

/-! ## Emitting -/

instance (jump : UInt16 → Instr) : Follows R (emitJump jump) := by unfold emitJump; infer_instance

instance (site : JumpSite) : Follows R (land site) := by unfold land; infer_instance

instance (start : Nat) : Follows R (emitLoop start) := by unfold emitLoop; infer_instance

instance (c : Constant) : Follows R (makeConstant c) := by
  unfold makeConstant
  refine follows_bind inferInstance fun s => ?_
  dsimp only
  split <;> infer_instance

instance (content : String) : Follows R (stringConstant content) := by
  unfold stringConstant; infer_instance

instance (c : Constant) : Follows R (emitConstant c) := by unfold emitConstant; infer_instance

instance : Follows R emitReturn := by unfold emitReturn; infer_instance

instance : Follows R beginScope := by unfold beginScope; infer_instance

instance : Follows R endScope := by unfold endScope; infer_instance

instance : Follows R takeBody where
  step s := by
    refine Course.same ?_
    unfold takeBody
    cases h : s.enclosing <;>
      simp only [modifyGet, MonadStateOf.modifyGet, StateT.modifyGet, h] <;>
      exact {}

instance : Follows R closeBody := by unfold closeBody; infer_instance

instance : Follows R closeFunction := by unfold closeFunction; infer_instance

/-! ## Variables -/

lemma State.resolve_cases (s : State) (name : String) :
    ∃ (complaints : List Complaint) (body : Body) (enclosing : List Body),
      (s.resolve name).2 =
        complaints.foldl (fun s c => s.complainOf s.previous c) { s with body, enclosing } := by
  unfold resolve
  split
  · next slot v found => exact ⟨Body.useComplaints v, s.body, s.enclosing, rfl⟩
  · exact ⟨_, _, _, rfl⟩

lemma Course.complaints (complaints : List Complaint) :
    ∀ s : State, R s (complaints.foldl (fun s c => s.complainOf s.previous c) s) := by
  induction complaints with
  | nil => exact Course.refl
  | cons c complaints ih => exact fun s => Course.trans (Course.complains _ _ _ (.inl rfl)) (ih _)

instance (name : String) : Follows R (modifyGet (·.resolve name) : Compiling (Option Access)) where
  step s := by
    show R s (s.resolve name).2
    obtain ⟨complaints, body, enclosing, eq⟩ := s.resolve_cases name
    rw [eq]
    exact Course.trans (Course.same {}) (Course.complaints complaints { s with body, enclosing })

instance (name : String) : Follows R (access name) := by
  unfold access
  refine follows_bind inferInstance fun place => ?_
  split <;> infer_instance

instance (name : String) : Follows R (readVariable name) := by unfold readVariable; infer_instance

instance (name : String) : Follows R (addLocal name) := by unfold addLocal; infer_instance

instance : Follows R declareVariable := by unfold declareVariable; infer_instance

instance : Follows R markInitialized := by unfold markInitialized; infer_instance

instance (what : String) : Follows R (parseVariable what) := by
  unfold parseVariable; infer_instance

instance (constant : UInt8) : Follows R (defineVariable constant) := by
  unfold defineVariable; infer_instance

/-! ## Expressions -/

section Phrases

variable (inner : Level) [inner.Follows R]

instance : Follows R inner.expression := Level.Follows.operators _

instance (fuel count : Nat) : Follows R (arguments inner fuel count) := by
  induction fuel generalizing count with
  | zero => unfold arguments; infer_instance
  | succ fuel ih => unfold arguments; infer_instance

instance : Follows R (argumentList inner) := by unfold argumentList; infer_instance

instance (canAssign : Bool) : Follows R (variableUse inner canAssign) := by
  unfold variableUse; infer_instance

instance : Follows R (superAccess inner) := by
  unfold superAccess
  refine follows_bind inferInstance fun s => ?_
  extract_lets rest
  have reads : Follows R (rest ()) := by
    dsimp only [rest]
    infer_instance
  split <;> infer_instance

instance : Follows R stringLiteral := by unfold stringLiteral; infer_instance

instance (canAssign : Bool) (start : Leading) : Follows R (readLeading inner canAssign start) := by
  cases start <;> unfold readLeading <;> infer_instance

instance (canAssign : Bool) : Follows R (property inner canAssign) := by
  unfold property
  infer_instance

instance (canAssign : Bool) (p : Precedence) (operator : Trailing) :
    Follows R (readTrailing inner canAssign p operator) := by
  cases operator <;> unfold readTrailing <;> infer_instance

instance (least : Precedence) (canAssign : Bool) (fuel : Nat) :
    Follows R (trailingOperators inner least canAssign fuel) := by
  induction fuel with
  | zero => unfold trailingOperators; infer_instance
  | succ fuel ih =>
    unfold trailingOperators
    refine follows_bind inferInstance fun s => ?_
    split <;> infer_instance

instance (least : Precedence) : Follows R (operatorsBody inner least) := by
  unfold operatorsBody
  refine follows_bind inferInstance fun _ => follows_bind inferInstance fun s => ?_
  dsimp only
  split <;> infer_instance

/-! ## Statements -/

instance (fuel count : Nat) : Follows R (parameters fuel count) := by
  induction fuel generalizing count with
  | zero => unfold parameters; infer_instance
  | succ fuel ih => unfold parameters; infer_instance

instance (kind : BodyKind) : Follows R (function inner kind) := by
  unfold function
  infer_instance

instance : Follows R (functionDeclaration inner) := by
  unfold functionDeclaration
  infer_instance

instance : Follows R (method inner) := by
  unfold method
  infer_instance

instance (fuel : Nat) : Follows R (methods inner fuel) := by
  induction fuel with
  | zero => unfold methods; infer_instance
  | succ fuel ih => unfold methods; infer_instance

instance (className : String) : Follows R (superclass className) := by
  unfold superclass
  infer_instance

instance : Follows R (classDeclaration inner) := by
  unfold classDeclaration
  iterate 8 refine follows_bind inferInstance fun _ => ?_
  infer_instance

instance : Follows R (variableDeclaration inner) := by
  unfold variableDeclaration
  infer_instance

instance [Calm R] : Follows R (declaration inner) := by
  unfold declaration
  infer_instance

instance [Calm R] (fuel : Nat) : Follows R (declarations inner fuel) := by
  induction fuel with
  | zero => unfold declarations; infer_instance
  | succ fuel ih => unfold declarations; infer_instance

instance [Calm R] : Follows R (blockBody inner) := by
  unfold blockBody
  infer_instance

instance : Follows R (printStatement inner) := by
  unfold printStatement
  infer_instance

instance : Follows R (expressionStatement inner) := by
  unfold expressionStatement
  infer_instance

instance : Follows R (returnStatement inner) := by
  unfold returnStatement
  infer_instance

instance : Follows R (ifStatement inner) := by
  unfold ifStatement
  infer_instance

instance : Follows R (whileStatement inner) := by
  unfold whileStatement
  infer_instance

instance : Follows R (forInitializer inner) := by
  unfold forInitializer
  infer_instance

instance : Follows R (forCondition inner) := by
  unfold forCondition
  infer_instance

instance (start : Nat) : Follows R (forIncrement inner start) := by
  unfold forIncrement
  infer_instance

instance : Follows R lastSlot := by unfold lastSlot; infer_instance

instance (loopVariable : Option (String × Nat)) : Follows R (forBody inner loopVariable) := by
  cases loopVariable <;> unfold forBody <;> infer_instance

instance (exit : Option JumpSite) : Follows R (forExit exit) := by
  cases exit <;> unfold forExit <;> infer_instance

instance : Follows R (forStatement inner) := by
  unfold forStatement
  infer_instance

instance [Follows R (blockBody inner)] : Follows R (statementBody inner) := by
  unfold statementBody
  infer_instance

end Phrases

/-! ## Programs -/

instance : Follows R refuseNesting := by unfold refuseNesting; infer_instance

instance [Calm R] (n : Nat) : (level n).Follows R := by
  induction n with
  | zero =>
    have refuses : Follows R refuseNesting := inferInstance
    exact ⟨refuses, fun _ => refuses, refuses⟩
  | succ n ih =>
    exact ⟨inferInstanceAs (Follows R (statementBody (level n))),
      fun p => inferInstanceAs (Follows R (operatorsBody (level n) p)),
      inferInstanceAs (Follows R (blockBody (level n)))⟩

instance [Calm R] (outermost : Level) [outermost.Follows R] (fuel : Nat) :
    Follows R (program outermost fuel) := by
  induction fuel with
  | zero => unfold program; infer_instance
  | succ fuel ih => unfold program; infer_instance

end Lox.Compile
