import Lox.Proofs.Compile.Programs

/-!
# Variables without a name

Slot zero of a script and of a function is a variable without a name.  Every name that is looked up while
a source is accepted is the text of a name or of a reserved word, and such a text is not empty; so no
function captures a variable without a name (`Overlooks`).
-/

namespace Lox.Compile

variable {α β γ : Type} {s s' : State}

/-! ## The texts of tokens -/

/-- The tokens at hand and ahead have the texts that their kinds ask for. -/
def State.Spelled (s : State) : Prop := ∀ t ∈ s.previous :: s.current :: s.rest, t.Spelled

/-- If the tokens have their texts, they have them later on. -/
def Spells (s s' : State) : Prop := s.Spelled → s'.Spelled

lemma State.Spelled.complainOf (spelled : s.Spelled) (token : Token) (complaint : Complaint) :
    (s.complainOf token complaint).Spelled := by
  unfold State.complainOf
  split <;> exact spelled

lemma State.Spelled.settle (ts : List Token) (spelled : s.Spelled) (ahead : ∀ t ∈ ts, t.Spelled) :
    (s.settle ts).Spelled := by
  induction ts generalizing s with
  | nil => exact spelled
  | cons t ts ih =>
    obtain ⟨first, others⟩ := List.forall_mem_cons.1 ahead
    obtain ⟨previous, current, -⟩ := by simpa only [State.Spelled, List.forall_mem_cons] using spelled
    have passed : State.Spelled { s with rest := ts } := List.forall_mem_cons.2 ⟨previous,
      List.forall_mem_cons.2 ⟨current, others⟩⟩
    unfold State.settle
    split
    · exact ih (passed.complainOf t _) others
    · exact List.forall_mem_cons.2 ⟨previous, List.forall_mem_cons.2 ⟨first, others⟩⟩

instance : Calm Spells where
  same h spelled := by
    rw [State.Spelled, h.previous, h.current, h.rest]
    exact spelled
  trans first second := second ∘ first
  complains _ token complaint _ spelled := spelled.complainOf token complaint
  fails _ _ := id
  advances s spelled := by
    obtain ⟨-, spelled⟩ := List.forall_mem_cons.1 spelled
    obtain ⟨current, ahead⟩ := List.forall_mem_cons.1 spelled
    have passed : State.Spelled { s with previous := s.current } :=
      List.forall_mem_cons.2 ⟨current, List.forall_mem_cons.2 ⟨current, ahead⟩⟩
    exact passed.settle s.rest ahead
  calms _ := id

instance : Course Spells := Calm.toCourse

/-! ## Overlooking -/

/-- None of the variables that has no name is captured. -/
def Hides (L : List Local) : Prop := ∀ v ∈ L, v.name = "" → v.isCaptured = false

/-- The open functions hide their variables without a name. -/
def State.Hides (s : State) : Prop := ∀ b ∈ s.body :: s.enclosing, Compile.Hides b.locals

/-- A quiet run of the action captures no variable without a name. -/
class Overlooks (act : Compiling α) : Prop where
  careful : Careful act := by infer_instance
  spells : Follows Spells act := by infer_instance
  step : ∀ {s a s'}, Runs act s a s' → s.Spelled → s.Hides → s'.Hides

/-- Quiet runs of the actions for nested phrases capture no variables without a name. -/
class Level.Overlooks (inner : Level) : Prop where
  statement : Compile.Overlooks inner.statement
  operators : ∀ p, Compile.Overlooks (inner.operators p)
  block : Compile.Overlooks inner.block

attribute [instance] Level.Overlooks.statement Level.Overlooks.operators Level.Overlooks.block

lemma Overlooks.spelled {act : Compiling α} {a : α} (h : Overlooks act) (run : Runs act s a s')
    (spelled : s.Spelled) : s'.Spelled := by
  have follows := h.spells.step s
  rw [run.eq] at follows
  exact follows spelled

/-! ### Combinators -/

lemma overlooks_bind {act : Compiling α} {f : α → Compiling β} (first : Overlooks act)
    (second : ∀ a, Overlooks (f a)) : Overlooks (act >>= f) := by
  have := first.careful
  have := fun a => (second a).careful
  refine ⟨inferInstance, follows_bind first.spells fun a => (second a).spells, fun run spelled hides => ?_⟩
  obtain ⟨a, s₁, run₁, run₂⟩ := runs_bind.1 run
  exact (second a).step run₂ (first.spelled run₁ spelled) (first.step run₁ spelled hides)

/-- The action changes no variables. -/
lemma overlooks_of_same {act : Compiling α} [careful : Careful act] [spells : Follows Spells act]
    (body : ∀ s, (act s).2.body.locals = s.body.locals)
    (enclosing : ∀ s, (act s).2.enclosing = s.enclosing) : Overlooks act := by
  refine ⟨careful, spells, fun {s a s'} run _ hides => ?_⟩
  have state : (act s).2 = s' := congrArg Prod.snd run.eq
  rw [State.Hides, ← state, enclosing, List.forall_mem_cons, body]
  exact List.forall_mem_cons.1 hides

instance (a : α) : Overlooks (pure a : Compiling α) := overlooks_of_same (fun _ => rfl) fun _ => rfl

instance : Overlooks (get : Compiling State) := overlooks_of_same (fun _ => rfl) fun _ => rfl

instance (c : Prop) [Decidable c] (x y : Compiling α) [Overlooks x] [Overlooks y] :
    Overlooks (if c then x else y) := by
  split <;> infer_instance

section Sequences

variable (act : Compiling α) [first : Overlooks act]

instance (f : α → Compiling β) [second : ∀ a, Overlooks (f a)] : Overlooks (act >>= f) :=
  overlooks_bind first second

-- What comes next is looked at just once where it does not depend on the result.
instance (next : Compiling β) [second : Overlooks next] : Overlooks (act >>= fun _ => next) :=
  overlooks_bind first fun _ => second

instance (f : α → Compiling β) (g : β → Compiling γ) [second : ∀ a, Overlooks (f a)] [third : ∀ b, Overlooks (g b)] :
    Overlooks (act >>= fun a => f a >>= g) :=
  overlooks_bind first fun a => overlooks_bind (second a) third

instance (choice : Compiling Bool) (x y : Compiling β) [Overlooks choice] [Overlooks x] [Overlooks y] :
    Overlooks (choice >>= fun b => if b then x else y) :=
  overlooks_bind inferInstance fun b => by split <;> infer_instance

instance (c : Prop) [Decidable c] (next : Compiling β) [Overlooks next] :
    Overlooks (if c then act >>= fun _ => next else next) := by
  split <;> infer_instance

end Sequences

instance (l : List α) (f : α → Compiling PUnit) [∀ a, Overlooks (f a)] : Overlooks (l.forM f) := by
  induction l with
  | nil => exact inferInstanceAs (Overlooks (pure ()))
  | cons a l ih => exact inferInstanceAs (Overlooks (f a >>= fun _ => l.forM f))

/-! ### Elementary actions -/

instance (complaint : Complaint) : Overlooks (complain complaint) := { step := fun run => absurd run not_runs_complain }

instance (complaint : Complaint) : Overlooks (complainHere complaint) :=
  { step := fun run => absurd run not_runs_complainHere }

instance (fault : Fault) : Overlooks (fail fault) := { step := fun run => absurd run not_runs_fail }

lemma State.settle_bodies (ts : List Token) (s : State) :
    (s.settle ts).body = s.body ∧ (s.settle ts).enclosing = s.enclosing := by
  induction ts generalizing s with
  | nil => exact ⟨rfl, rfl⟩
  | cons t ts ih =>
    unfold State.settle
    split
    · refine (ih _).imp (fun same => same.trans ?_) fun same => same.trans ?_ <;>
        unfold State.complainOf <;> split <;> rfl
    · exact ⟨rfl, rfl⟩

instance : Overlooks advance :=
  overlooks_of_same (fun s => congrArg Body.locals (State.settle_bodies s.rest _).1) fun s =>
    (State.settle_bodies s.rest _).2

/-- The variables are as before, or some of them are gone or have got their values, or a new one is there. -/
lemma overlooks_modifyBody {f : Body → Body} (hides : ∀ b : Body, Hides b.locals → Hides (f b).locals) :
    Overlooks (modifyBody f) := by
  refine { step := fun {s a s'} run _ known => ?_ }
  have state : { s with body := f s.body } = s' := congrArg Prod.snd run.eq
  obtain ⟨first, others⟩ := List.forall_mem_cons.1 known
  rw [← state]
  exact List.forall_mem_cons.2 ⟨hides _ first, others⟩

instance (name : String) : Overlooks (modifyBody (·.pushLocal name)) :=
  overlooks_modifyBody fun _ hides => List.forall_mem_cons.2 ⟨fun _ => rfl, hides⟩

instance (arity : Nat) : Overlooks (modifyBody fun b => { b with arity }) :=
  overlooks_modifyBody fun _ => id

instance (index : Nat) (distance : UInt16) : Overlooks (modifyBody (·.aimJump index distance)) :=
  overlooks_modifyBody fun _ => id

instance (c : Constant) : Overlooks (modifyBody (·.addConstant c)) := overlooks_modifyBody fun _ => id

instance : Overlooks (modifyBody (·.leaveScope)) :=
  overlooks_modifyBody fun _ hides v there => hides v ((List.dropWhile_suffix _).mem there)

instance : Overlooks markInitialized := by
  refine overlooks_modifyBody fun b hides => ?_
  split
  · exact hides
  · unfold Body.initializeLocal
    split
    · exact hides
    · next locals =>
      rw [locals] at hides
      obtain ⟨first, others⟩ := List.forall_mem_cons.1 hides
      exact List.forall_mem_cons.2 ⟨first, others⟩

instance : Overlooks beginScope := overlooks_modifyBody fun _ => id

instance (i : Instr) : Overlooks (emit i) := overlooks_of_same (fun _ => rfl) fun _ => rfl

instance (content : String) : Overlooks (internString content) := overlooks_of_same (fun _ => rfl) fun _ => rfl

instance (f : State → List Bool) :
    Overlooks (modify fun s => { s with classes := f s } : Compiling Unit) :=
  overlooks_of_same (fun _ => rfl) fun _ => rfl

instance : Overlooks (modify fun s => { s with panicking := false } : Compiling Unit) :=
  overlooks_of_same (fun _ => rfl) fun _ => rfl

/-- Slot zero of a new body is not captured yet. -/
instance (kind : BodyKind) (name : String) : Overlooks (openBody kind name) := by
  refine { step := fun {s a s'} run _ hides => ?_ }
  have state : { s with body := .start kind name, enclosing := s.body :: s.enclosing } = s' :=
    congrArg Prod.snd run.eq
  rw [← state]
  refine List.forall_mem_cons.2 ⟨fun v there _ => ?_, hides⟩
  rw [List.mem_singleton.1 there]

instance : Overlooks takeBody := by
  refine { step := fun {s a s'} run _ hides => ?_ }
  have state : (takeBody s).2 = s' := congrArg Prod.snd run.eq
  rw [← state]
  unfold takeBody
  simp only [modifyGet, MonadStateOf.modifyGet, StateT.modifyGet]
  cases enclosing : s.enclosing with
  | nil =>
    rw [State.Hides, enclosing] at hides
    exact hides
  | cons around further =>
    have others := (List.forall_mem_cons.1 hides).2
    rw [enclosing] at others
    exact others

/-! ### Moving on and emitting -/

instance (kind : TokenKind) : Overlooks (check kind) := by unfold check; infer_instance

instance (kind : TokenKind) : Overlooks (accept kind) := by unfold accept; infer_instance

instance (kind : TokenKind) (what : String) : Overlooks (expect kind what) := by
  unfold expect; infer_instance

instance : Overlooks atBlockEnd := by unfold atBlockEnd; infer_instance

instance (fuel : Nat) : Overlooks (skipToStatement fuel) := by
  induction fuel with
  | zero => unfold skipToStatement; infer_instance
  | succ fuel ih => unfold skipToStatement; infer_instance

instance : Overlooks synchronize := by unfold synchronize; infer_instance

instance (jump : UInt16 → Instr) : Overlooks (emitJump jump) := by unfold emitJump; infer_instance

instance (site : JumpSite) : Overlooks (land site) := by unfold land; infer_instance

instance (start : Nat) : Overlooks (emitLoop start) := by unfold emitLoop; infer_instance

instance (c : Constant) : Overlooks (makeConstant c) := by
  unfold makeConstant
  refine overlooks_bind inferInstance fun s => ?_
  dsimp only
  split <;> infer_instance

instance (content : String) : Overlooks (stringConstant content) := by
  unfold stringConstant; infer_instance

instance (c : Constant) : Overlooks (emitConstant c) := by unfold emitConstant; infer_instance

instance : Overlooks emitReturn := by unfold emitReturn; infer_instance

instance : Overlooks endScope := by unfold endScope; infer_instance

instance : Overlooks closeBody := by unfold closeBody; infer_instance

instance : Overlooks closeFunction := by unfold closeFunction; infer_instance

/-! ### Variables -/

lemma Hides.markCaptured {x : String} {L : List Local} (hides : Hides L) (named : x ≠ "") :
    Hides (markCaptured x L) := by
  induction L with
  | nil => exact hides
  | cons v outer ih =>
    obtain ⟨first, others⟩ := List.forall_mem_cons.1 hides
    unfold Compile.markCaptured
    split
    · next same => exact List.forall_mem_cons.2 ⟨fun nameless => absurd (same.symm.trans nameless) named, others⟩
    · exact List.forall_mem_cons.2 ⟨first, ih others⟩

lemma Body.locals_addCapture (b : Body) (c : Capture) : (b.addCapture c).2.1.locals = b.locals := by
  unfold Body.addCapture
  split
  · rfl
  · split <;> rfl

/-- Looking a name up marks variables of this name only. -/
lemma hides_resolveCapture {x : String} (named : x ≠ "") (around : List Body) :
    ∀ b : Body, (∀ c ∈ b :: around, Hides c.locals) →
      ∀ c ∈ (Body.resolveCapture x b around).2.1 :: (Body.resolveCapture x b around).2.2.1, Hides c.locals := by
  induction around with
  | nil => exact fun b hides => hides
  | cons near further ih =>
    intro b hides
    obtain ⟨first, others⟩ := List.forall_mem_cons.1 hides
    obtain ⟨second, beyond⟩ := List.forall_mem_cons.1 others
    unfold Body.resolveCapture
    split
    · refine List.forall_mem_cons.2 ⟨?_, List.forall_mem_cons.2 ⟨second.markCaptured named, beyond⟩⟩
      rw [Body.locals_addCapture]
      exact first
    · have inner := ih near others
      generalize Body.resolveCapture x near further = result at inner
      obtain ⟨_ | outer, near', further', complaints⟩ := result
      · exact List.forall_mem_cons.2 ⟨first, inner⟩
      · refine List.forall_mem_cons.2 ⟨?_, inner⟩
        rw [Body.locals_addCapture]
        exact first

lemma State.Hides.complainOf (hides : s.Hides) (token : Token) (complaint : Complaint) :
    (s.complainOf token complaint).Hides := by
  unfold State.complainOf
  split <;> exact hides

lemma State.Hides.complaints (complaints : List Complaint) (hides : s.Hides) :
    (complaints.foldl (fun s c => s.complainOf s.previous c) s).Hides := by
  induction complaints generalizing s with
  | nil => exact hides
  | cons c complaints ih => exact ih (hides.complainOf s.previous c)

lemma overlooks_resolve {x : String} (named : x ≠ "") :
    Overlooks (modifyGet (·.resolve x) : Compiling (Option Access)) := by
  refine { step := fun {s a s'} run _ hides => ?_ }
  have state : (s.resolve x).2 = s' := congrArg Prod.snd run.eq
  rw [← state]
  unfold State.resolve
  split
  · exact hides.complaints _
  · exact State.Hides.complaints _ (hides_resolveCapture named s.enclosing s.body hides)

/-- Looking up a name captures no variable without one. -/
lemma overlooks_access {x : String} (named : x ≠ "") : Overlooks (access x) := by
  unfold access
  refine overlooks_bind (overlooks_resolve named) fun place => ?_
  split <;> infer_instance

lemma overlooks_readVariable {x : String} (named : x ≠ "") : Overlooks (readVariable x) := by
  have := overlooks_access named
  unfold readVariable
  infer_instance

instance (name : String) : Overlooks (addLocal name) := by unfold addLocal; infer_instance

instance : Overlooks declareVariable := by unfold declareVariable; infer_instance

instance (what : String) : Overlooks (parseVariable what) := by
  unfold parseVariable; infer_instance

instance (constant : UInt8) : Overlooks (defineVariable constant) := by
  unfold defineVariable; infer_instance

/-! ### Names that are read -/

lemma State.settle_previous (ts : List Token) (s : State) : (s.settle ts).previous = s.previous := by
  induction ts generalizing s with
  | nil => rfl
  | cons t ts ih =>
    unfold State.settle
    split
    · refine (ih _).trans ?_
      unfold State.complainOf
      split <;> rfl
    · rfl

lemma State.Spelled.named (spelled : s.Spelled) (kind : s.previous.kind = .identifier) : s.previous.lexeme ≠ "" :=
  ((List.forall_mem_cons.1 spelled).1.name kind).1

/-- After a name has been read, its text is not empty. -/
lemma overlooks_expectName {what : String} {f : State → Compiling α} [∀ s, Careful (f s)]
    [∀ s, Follows Spells (f s)] (second : ∀ s, s.previous.lexeme ≠ "" → Overlooks (f s)) :
    Overlooks (expect .identifier what >>= fun _ => get >>= f) := by
  refine { step := fun {s a s'} run spelled hides => ?_ }
  obtain ⟨u, s₁, reads, run⟩ := runs_bind.1 run
  have run := runs_get_bind.1 run
  have expecting : Overlooks (expect .identifier what) := inferInstance
  have spelled₁ := expecting.spelled reads spelled
  have hides₁ := expecting.step reads spelled hides
  refine (second s₁ (spelled₁.named ?_)).step run spelled₁ hides₁
  unfold expect at reads
  obtain ⟨found, s₂, checks, reads⟩ := runs_bind.1 reads
  obtain ⟨rfl, found_iff⟩ := check_spec checks
  rcases runs_ite.1 reads with ⟨yes, reads⟩ | ⟨no, reads⟩
  · have state : (advance s).2 = s₁ := congrArg Prod.snd reads.eq
    rw [← state, ← found_iff.1 yes]
    exact congrArg Token.kind (State.settle_previous s.rest _)
  · exact absurd reads not_runs_complainHere

/-! ### Expressions -/

section Phrases

variable (inner : Level) [overlooks : inner.Overlooks]

instance : inner.Careful :=
  ⟨overlooks.statement.careful, fun p => (overlooks.operators p).careful, overlooks.block.careful⟩

instance : inner.Follows Spells :=
  ⟨overlooks.statement.spells, fun p => (overlooks.operators p).spells, overlooks.block.spells⟩

instance : Overlooks inner.expression := Level.Overlooks.operators _

instance (fuel count : Nat) : Overlooks (arguments inner fuel count) := by
  induction fuel generalizing count with
  | zero => unfold arguments; infer_instance
  | succ fuel ih => unfold arguments; infer_instance

instance : Overlooks (argumentList inner) := by unfold argumentList; infer_instance

instance : Overlooks (superAccess inner) := by
  have receiver : Overlooks (readVariable "this") := overlooks_readVariable (by decide)
  have superclass : Overlooks (readVariable "super") := overlooks_readVariable (by decide)
  unfold superAccess
  refine overlooks_bind inferInstance fun s => ?_
  dsimp only
  split <;> infer_instance

instance : Overlooks stringLiteral := by unfold stringLiteral; infer_instance

/-- The use of a variable whose name has been read. -/
lemma variableUse_hides {canAssign : Bool} {u : Unit} (run : Runs (variableUse inner canAssign) s u s')
    (spelled : s.Spelled) (hides : s.Hides) (named : s.previous.lexeme ≠ "") : s'.Hides := by
  have := overlooks_access named
  have uses : Overlooks (access s.previous.lexeme >>= fun place => do
      let assigns ← if canAssign then accept .equal else pure false
      if assigns then
        inner.expression
        emit place.write
      else
        emit place.read) := inferInstance
  unfold variableUse at run
  exact uses.step (runs_get_bind.1 run) spelled hides

/-- What a token has started. -/
lemma readLeading_hides {canAssign : Bool} {start : Leading} {u : Unit}
    (run : Runs (readLeading inner canAssign start) s u s') (spelled : s.Spelled) (hides : s.Hides)
    (word : leading? s.previous.kind = some start) : s'.Hides := by
  have kind := leading?_cases word
  cases start with
  | name => exact variableUse_hides inner run spelled hides (spelled.named kind)
  | this =>
    have text : s.previous.lexeme = "this" := (List.forall_mem_cons.1 spelled).1.this kind
    have receiver : Overlooks (readVariable s.previous.lexeme) := overlooks_readVariable (by rw [text]; decide)
    unfold readLeading at run
    rcases runs_ite.1 (runs_get_bind.1 run) with ⟨-, run⟩ | ⟨-, run⟩
    · exact absurd run not_runs_complain
    · exact receiver.step (runs_get_bind.1 run) spelled hides
  | grouping =>
    have reads : Overlooks (readLeading inner canAssign .grouping) := by unfold readLeading; infer_instance
    exact reads.step run spelled hides
  | unary i =>
    have reads : Overlooks (readLeading inner canAssign (.unary i)) := by unfold readLeading; infer_instance
    exact reads.step run spelled hides
  | number =>
    have reads : Overlooks (readLeading inner canAssign .number) := by unfold readLeading; infer_instance
    exact reads.step run spelled hides
  | string =>
    have reads : Overlooks stringLiteral := inferInstance
    exact reads.step run spelled hides
  | literal i =>
    have reads : Overlooks (emit i) := inferInstance
    exact reads.step run spelled hides
  | super =>
    have reads : Overlooks (superAccess inner) := inferInstance
    exact reads.step run spelled hides

instance (canAssign : Bool) : Overlooks (property inner canAssign) := by
  unfold property
  infer_instance

instance (canAssign : Bool) (p : Precedence) (operator : Trailing) :
    Overlooks (readTrailing inner canAssign p operator) := by
  cases operator <;> unfold readTrailing <;> infer_instance

instance (least : Precedence) (canAssign : Bool) (fuel : Nat) :
    Overlooks (trailingOperators inner least canAssign fuel) := by
  induction fuel with
  | zero => unfold trailingOperators; infer_instance
  | succ fuel ih =>
    unfold trailingOperators
    refine overlooks_bind inferInstance fun s => ?_
    split <;> infer_instance

instance (least : Precedence) : Overlooks (operatorsBody inner least) := by
  refine { step := fun {s a s'} run spelled hides => ?_ }
  unfold operatorsBody at run
  rw [@runs_bind _ _ _ _ _ (fun _ => follows_bind inferInstance fun s₁ => by
    cases leading? s₁.previous.kind <;> infer_instance)] at run
  obtain ⟨u, s₁, moves, run⟩ := run
  have moving : Overlooks advance := inferInstance
  have spelled₁ := moving.spelled moves spelled
  have hides₁ := moving.step moves spelled hides
  rw [runs_get_bind] at run
  cases word : leading? s₁.previous.kind with
  | none =>
    simp only [word] at run
    exact absurd run not_runs_complain
  | some start =>
    simp only [word] at run
    obtain ⟨u, s₂, reads, run⟩ := runs_bind.1 run
    have hides₂ := readLeading_hides inner reads spelled₁ hides₁ word
    have reading : Follows Spells (readLeading inner (decide (least ≤ .assignment)) start) := inferInstance
    have follows := reading.step s₁
    rw [reads.eq] at follows
    exact Overlooks.step run (follows spelled₁) hides₂

/-! ### Statements -/

instance (fuel count : Nat) : Overlooks (parameters fuel count) := by
  induction fuel generalizing count with
  | zero => unfold parameters; infer_instance
  | succ fuel ih => unfold parameters; infer_instance

instance (kind : BodyKind) : Overlooks (function inner kind) := by
  unfold function
  infer_instance

instance : Overlooks (functionDeclaration inner) := by
  unfold functionDeclaration
  infer_instance

instance : Overlooks (method inner) := by
  unfold method
  infer_instance

instance (fuel : Nat) : Overlooks (methods inner fuel) := by
  induction fuel with
  | zero => unfold methods; infer_instance
  | succ fuel ih => unfold methods; infer_instance

lemma overlooks_superclass {className : String} (named : className ≠ "") : Overlooks (superclass className) := by
  have own := overlooks_readVariable named
  unfold superclass
  refine overlooks_bind inferInstance fun found => ?_
  split
  · refine overlooks_expectName fun s named' => ?_
    have other := overlooks_readVariable named'
    infer_instance
  · infer_instance

instance : Overlooks (classDeclaration inner) := by
  unfold classDeclaration
  refine overlooks_expectName fun s named => ?_
  have own := overlooks_readVariable named
  have others := overlooks_superclass named
  infer_instance

instance : Overlooks (variableDeclaration inner) := by
  unfold variableDeclaration
  infer_instance

instance : Overlooks (declaration inner) := by
  unfold declaration
  infer_instance

instance (fuel : Nat) : Overlooks (declarations inner fuel) := by
  induction fuel with
  | zero => unfold declarations; infer_instance
  | succ fuel ih => unfold declarations; infer_instance

instance : Overlooks (blockBody inner) := by
  unfold blockBody
  infer_instance

instance : Overlooks (printStatement inner) := by
  unfold printStatement
  infer_instance

instance : Overlooks (expressionStatement inner) := by
  unfold expressionStatement
  infer_instance

instance : Overlooks (returnStatement inner) := by
  unfold returnStatement
  infer_instance

instance : Overlooks (ifStatement inner) := by
  unfold ifStatement
  infer_instance

instance : Overlooks (whileStatement inner) := by
  unfold whileStatement
  infer_instance

instance : Overlooks (forInitializer inner) := by
  unfold forInitializer
  infer_instance

instance : Overlooks (forCondition inner) := by
  unfold forCondition
  infer_instance

instance (start : Nat) : Overlooks (forIncrement inner start) := by
  unfold forIncrement
  infer_instance

instance : Overlooks lastSlot := by unfold lastSlot; infer_instance

instance (loopVariable : Option (String × Nat)) : Overlooks (forBody inner loopVariable) := by
  cases loopVariable <;> unfold forBody <;> infer_instance

instance (exit : Option JumpSite) : Overlooks (forExit exit) := by
  cases exit <;> unfold forExit <;> infer_instance

instance : Overlooks (forStatement inner) := by
  unfold forStatement
  infer_instance

instance : Overlooks (statementBody inner) := by
  unfold statementBody
  infer_instance

end Phrases

/-! ### Programs -/

instance : Overlooks refuseNesting := by unfold refuseNesting; infer_instance

instance (n : Nat) : (level n).Overlooks := by
  induction n with
  | zero =>
    have refuses : Overlooks refuseNesting := inferInstance
    exact ⟨refuses, fun _ => refuses, refuses⟩
  | succ n ih =>
    exact ⟨inferInstanceAs (Overlooks (statementBody (level n))),
      fun p => inferInstanceAs (Overlooks (operatorsBody (level n) p)),
      inferInstanceAs (Overlooks (blockBody (level n)))⟩

instance (outermost : Level) [outermost.Overlooks] (fuel : Nat) : Overlooks (program outermost fuel) := by
  induction fuel with
  | zero => unfold program; infer_instance
  | succ fuel ih => unfold program; infer_instance

instance : Overlooks script := by
  unfold script
  infer_instance

end Lox.Compile

namespace Lox

open Compile Syntax

/-- Slot zero of the script of a source that is accepted is captured by no function. -/
theorem compile_overlooks {source : String} {strings : StringTable} {serial : Nat} {p : Prototype}
    (compiles : (compile source strings serial).outcome = .ok p) :
    ∃ (ds : Stmt .declarations) (Γ : Context) (v : Local) (items : List Item) (L : List Local),
      v.isCaptured = false ∧ ds.Proper ∧ Γ.kind = .script ∧ Γ.around = [] ∧ v.name = "" ∧
        ds.Emits Γ true [v] items L ∧ Assembles p "" 0 Γ items L := by
  obtain ⟨s, run⟩ := compile_runs.1 compiles
  obtain ⟨ds, ⟨rest, tree, -⟩, Γ, v, items, L, among, kind, around, named, emits⟩ := script_spec run
  have spelled : (State.start (Token.scan source) strings serial).Spelled := by
    obtain ⟨ts, last, all, -, -, spelled⟩ := Token.scan_spec source
    have none : Token.Spelled ⟨.endOfInput, "", 0, 0⟩ :=
      ⟨fun name => (nomatch name), fun this => (nomatch this), fun string => (nomatch string)⟩
    refine List.forall_mem_cons.2 ⟨none, List.forall_mem_cons.2 ⟨none, fun t there => spelled t ?_⟩⟩
    rw [← all]
    exact there
  have hides : (State.start (Token.scan source) strings serial).Hides :=
    List.forall_mem_cons.2 ⟨fun v there _ => by rw [List.mem_singleton.1 there], fun b there => nomatch there⟩
  have overlooks : Overlooks script := inferInstance
  have own := (List.forall_mem_cons.1 (overlooks.step run spelled hides)).1
  exact ⟨ds, Γ, v, items, L, own v among named, (tree.proper (Token.properWords_scan source)).1, kind, around,
    named, emits⟩

end Lox
