import Lox.Proofs.Compile.Reading

/-!
# Balance

What every phrase leaves as it was, whether or not something is complained of on the way: the bodies
and classes that are open, and the scopes of each body (`Balanced`).  Code only grows, so a jump that
has been emitted is still there when it lands; and as the loops run out of tokens before they run
out of turns, no action fails (`Step.faultless`).

`Steady k b r act` says that an action does this and leaves `k` scopes, as long as the code has at
least `b` bytes and fewer than `r` tokens are ahead.  There is one instance for each action.  The
actions after one that measures its place, such as the emission of a jump, may rely on that place
(`Raises`).
-/

namespace Lox.Compile

variable {α β γ : Type} {j k b r : Nat}

/-! ## Steps -/

/-- What functions inside a body leave as it is. -/
def Body.frame (b : Body) : BodyKind × Nat × Nat := (b.kind, b.depth, b.size)

/-- A later state, with the same bodies and classes and with `k` scopes less. -/
structure Balanced (k : Nat) (s s' : State) : Prop where
  onward : Onward s s'
  kind : s'.body.kind = s.body.kind
  depth : s'.body.depth = s.body.depth - k
  size : s.body.size ≤ s'.body.size
  around : s'.enclosing.map Body.frame = s.enclosing.map Body.frame
  classes : s'.classes = s.classes

/-- A later state, in which nothing has failed if there were at least `b` bytes of code and fewer
than `r` tokens ahead. -/
structure Step (k b r : Nat) (s s' : State) : Prop extends Balanced k s s' where
  faultless : s.Fed → b ≤ s.body.size → s.rest.length < r → s.fault = none → s'.fault = none

/-- The action leaves `k` scopes. -/
class Steady (k b r : Nat) (act : Compiling α) : Prop where
  step : ∀ s, Step k b r s (act s).2

/-- The actions for nested phrases leave no scopes. -/
class Level.Steady (inner : Level) : Prop where
  statement : ∀ b r, Compile.Steady 0 b r inner.statement
  operators : ∀ b r p, Compile.Steady 0 b r (inner.operators p)
  block : ∀ b r, Compile.Steady 0 b r inner.block

attribute [instance] Level.Steady.statement Level.Steady.operators Level.Steady.block

section Step

variable {s s' s'' : State}

lemma Balanced.refl (s : State) : Balanced 0 s s :=
  ⟨Course.refl s, rfl, rfl, Nat.le_refl _, rfl, rfl⟩

lemma Balanced.trans (h : Balanced j s s') (h' : Balanced k s' s'') : Balanced (j + k) s s'' where
  onward := h.onward.trans h'.onward
  kind := h'.kind.trans h.kind
  depth := by rw [h'.depth, h.depth, Nat.sub_sub]
  size := Nat.le_trans h.size h'.size
  around := h'.around.trans h.around
  classes := h'.classes.trans h.classes

lemma Step.refl (s : State) : Step 0 b r s s := ⟨.refl s, fun _ _ _ => id⟩

/-- At the second of two steps there is at least as much code, and no more tokens are ahead. -/
lemma Step.trans (h : Step j b r s s') (h' : Step k b r s' s'') : Step (j + k) b r s s'' where
  toBalanced := h.toBalanced.trans h'.toBalanced
  faultless fed code short none :=
    h'.faultless (h.onward.fed fed) (Nat.le_trans code h.size)
      (Nat.lt_of_le_of_lt h.onward.le short) (h.faultless fed code short none)

lemma Step.andThen (h : Step 0 b r s s') (h' : Step k b r s' s'') : Step k b r s s'' :=
  Nat.zero_add k ▸ h.trans h'

lemma Step.mono {r' : Nat} (h : Step k b r' s s') (less : r ≤ r') : Step k b r s s' :=
  ⟨h.toBalanced, fun fed code short => h.faultless fed code (Nat.lt_of_lt_of_le short less)⟩

/-- After a token has been read there is one less ahead. -/
lemma Step.reading (h : Step 0 b (r + 1) s s') (less : s.Fed → s'.rest.length < s.rest.length)
    (h' : Step k b r s' s'') : Step k b (r + 1) s s'' where
  toBalanced := Nat.zero_add k ▸ h.toBalanced.trans h'.toBalanced
  faultless fed code short none :=
    h'.faultless (h.onward.fed fed) (Nat.le_trans code h.size)
      (Nat.lt_of_lt_of_le (less fed) (Nat.le_of_lt_succ short)) (h.faultless fed code short none)

/-- A step from which nothing but the place among the tokens may differ. -/
lemma Step.ofOnward (onward : Onward s s') (body : s'.body = s.body)
    (enclosing : s'.enclosing = s.enclosing) (classes : s'.classes = s.classes)
    (fault : s'.fault = s.fault) : Step 0 b r s s' where
  onward := onward
  kind := congrArg _ body
  depth := congrArg _ body
  size := Nat.le_of_eq (congrArg _ body.symm)
  around := congrArg _ enclosing
  classes := classes
  faultless _ _ _ none := fault.trans none

end Step

lemma steady (act : Compiling α) [Steady k b r act] (s : State) : Step k b r s (act s).2 :=
  Steady.step s

/-! ## Combinators -/

instance (a : α) : Steady 0 b r (pure a : Compiling α) := ⟨Step.refl⟩

instance : Steady 0 b r (get : Compiling State) := ⟨Step.refl⟩

lemma steady_bind {act : Compiling α} {f : α → Compiling β} (first : Steady 0 b r act)
    (second : ∀ a, Steady k b r (f a)) : Steady k b r (act >>= f) :=
  ⟨fun s => (first.step s).andThen ((second (act s).1).step (act s).2)⟩

instance (c : Prop) [Decidable c] (x y : Compiling α) [Steady k b r x] [Steady k b r y] :
    Steady k b r (if c then x else y) := by
  split <;> infer_instance

section Sequences

variable (act : Compiling α) [first : Steady 0 b r act]

instance (f : α → Compiling β) [second : ∀ a, Steady k b r (f a)] : Steady k b r (act >>= f) :=
  steady_bind first second

-- What comes next is looked at just once where it does not depend on the result.
instance (next : Compiling β) [second : Steady k b r next] : Steady k b r (act >>= fun _ => next) :=
  steady_bind first fun _ => second

instance (f : α → Compiling β) (g : β → Compiling γ) [second : ∀ a, Steady 0 b r (f a)]
    [third : ∀ b', Steady k b r (g b')] : Steady k b r (act >>= fun a => f a >>= g) :=
  steady_bind first fun a => steady_bind (second a) third

instance (choice : Compiling Bool) (x y : Compiling β) [Steady 0 b r choice] [Steady k b r x] [Steady k b r y] :
    Steady k b r (choice >>= fun b => if b then x else y) :=
  steady_bind inferInstance fun b => by split <;> infer_instance

instance (c : Prop) [Decidable c] (next : Compiling β) [Steady k b r next] :
    Steady k b r (if c then act >>= fun _ => next else next) := by
  split <;> infer_instance

end Sequences

instance (l : List α) (f : α → Compiling PUnit) [∀ a, Steady 0 b r (f a)] :
    Steady 0 b r (l.forM f) := by
  induction l with
  | nil => exact inferInstanceAs (Steady 0 b r (pure ()))
  | cons a l ih => exact inferInstanceAs (Steady 0 b r (f a >>= fun _ => l.forM f))

/-! ### Bounds -/

/-- One bound is below another. -/
class Below (m n : Nat) : Prop where
  le : m ≤ n

instance (n : Nat) : Below n n := ⟨Nat.le_refl n⟩

instance (m n : Nat) : Below n (max m n) := ⟨Nat.le_max_right m n⟩

instance (l m n : Nat) [h : Below l m] : Below l (max m n) := ⟨Nat.le_trans h.le (Nat.le_max_left m n)⟩

instance (m n : Nat) : Below (min m n) n := ⟨Nat.min_le_right m n⟩

instance (l m n : Nat) [h : Below l n] : Below (min l m) n := ⟨Nat.le_trans (Nat.min_le_left l m) h.le⟩

/-- The result of the action tells a size that the code has reached. -/
def Measures (bound : α → Nat) (b : Nat) (act : Compiling α) : Prop :=
  ∀ s : State, b ≤ s.body.size → bound (act s).1 ≤ (act s).2.body.size

/-- An action whose result the actions after it may rely on. -/
class Raises (bound : outParam (α → Nat)) (b r : Nat) (act : Compiling α) : Prop where
  steady : Steady 0 b r act
  measures : Measures bound b act

instance (priority := low) (bound : α → Nat) (act : Compiling α) (f : α → Compiling β)
    [first : Raises bound b r act] [second : ∀ a, Steady k (max b (bound a)) r (f a)] :
    Steady k b r (act >>= f) where
  step s := by
    have one := first.steady.step s
    have two := (second (act s).1).step (act s).2
    refine ⟨Nat.zero_add k ▸ one.toBalanced.trans two.toBalanced, fun fed code short none => ?_⟩
    exact two.faultless (one.onward.fed fed)
      (Nat.max_le.2 ⟨Nat.le_trans code one.size, first.measures s code⟩)
      (Nat.lt_of_le_of_lt one.onward.le short) (one.faultless fed code short none)

section Measures

variable {bound : β → Nat} {act : Compiling α} {f : α → Compiling β}

lemma measures_pure {a : β} (below : bound a ≤ b) : Measures bound b (pure a) :=
  fun _ => Nat.le_trans below

/-- The code does not get shorter before the result is there. -/
lemma measures_bind (first : Steady 0 b 0 act) (second : ∀ a, Measures bound b (f a)) :
    Measures bound b (act >>= f) :=
  fun s code => second (act s).1 (act s).2 (Nat.le_trans code (first.step s).size)

lemma measures_raise {bound' : α → Nat} (first : Raises bound' b 0 act)
    (second : ∀ a, Measures bound (max b (bound' a)) (f a)) : Measures bound b (act >>= f) :=
  fun s code => second (act s).1 (act s).2
    (Nat.max_le.2 ⟨Nat.le_trans code (first.steady.step s).size, first.measures s code⟩)

lemma measures_get {f : State → Compiling β}
    (second : ∀ s, Measures bound (max b s.body.size) (f s)) : Measures bound b (get >>= f) :=
  fun s code => second s s (Nat.max_le.2 ⟨code, Nat.le_refl _⟩)

end Measures

lemma get_bind (f : State → Compiling β) (s : State) : (get >>= f) s = f s s := rfl

/-- The actions after looking at a state may rely on its size and its budget. -/
instance (f : State → Compiling β) [h : ∀ s, Steady k (max b s.body.size) (min r s.budget) (f s)] :
    Steady k b r (get >>= f) where
  step s := by
    have step : Step k _ _ s (f s s).2 := (h s).step s
    exact ⟨step.toBalanced, fun fed code short =>
      step.faultless fed (Nat.max_le.2 ⟨code, Nat.le_refl _⟩) (Nat.lt_min.2 ⟨short, fed.budget⟩)⟩

/-! ## Elementary actions -/

lemma State.step_complainOf (s : State) (token : Token) (complaint : Complaint) :
    Step 0 b r s (s.complainOf token complaint) := by
  refine .ofOnward (s.samePlace_complainOf token complaint).onward ?_ ?_ ?_ ?_ <;>
    · unfold complainOf
      split <;> rfl

instance (complaint : Complaint) : Steady 0 b r (complain complaint) :=
  ⟨fun s => s.step_complainOf s.previous complaint⟩

instance (complaint : Complaint) : Steady 0 b r (complainHere complaint) :=
  ⟨fun s => s.step_complainOf s.current complaint⟩

/-- What may not happen need not be shown to go well. -/
instance (fault : Fault) : Steady 0 b 0 (fail fault) :=
  ⟨fun s => ⟨⟨Course.fails s fault, rfl, rfl, Nat.le_refl _, rfl, rfl⟩,
    fun _ _ short => absurd short (Nat.not_lt_zero _)⟩⟩

lemma State.step_settle (ts : List Token) : ∀ s : State,
    (s.settle ts).body = s.body ∧ (s.settle ts).enclosing = s.enclosing ∧
      (s.settle ts).classes = s.classes ∧ (s.settle ts).fault = s.fault := by
  induction ts with
  | nil => exact fun _ => ⟨rfl, rfl, rfl, rfl⟩
  | cons t ts ih =>
    intro s
    unfold settle
    split
    · obtain ⟨body, enclosing, classes, fault⟩ := ih (({ s with rest := ts } : State).complainOf t _)
      rw [body, enclosing, classes, fault]
      unfold complainOf
      split <;> exact ⟨rfl, rfl, rfl, rfl⟩
    · exact ⟨rfl, rfl, rfl, rfl⟩

instance : Steady 0 b r advance where
  step s := by
    obtain ⟨body, enclosing, classes, fault⟩ :=
      State.step_settle s.rest { s with previous := s.current }
    exact .ofOnward (onward_advance s) body enclosing classes fault

instance : Steady 0 b r (modify fun s => { s with panicking := false } : Compiling Unit) :=
  ⟨fun s => .ofOnward (Calm.calms s) rfl rfl rfl rfl⟩

lemma steady_modifyBody {f : Body → Body}
    (h : ∀ b, (f b).kind = b.kind ∧ (f b).depth = b.depth ∧ b.size ≤ (f b).size) :
    Steady 0 b r (modifyBody f) :=
  ⟨fun s => ⟨⟨Course.same {}, (h s.body).1, (h s.body).2.1, (h s.body).2.2, rfl, rfl⟩,
    fun _ _ _ => id⟩⟩

instance (i : Instr) : Steady 0 b r (emit i) :=
  ⟨fun _ => ⟨⟨Course.same {}, rfl, rfl, Nat.le_add_right _ _, rfl, rfl⟩, fun _ _ _ => id⟩⟩

instance (index : Nat) (distance : UInt16) : Steady 0 b r (modifyBody (·.aimJump index distance)) :=
  steady_modifyBody fun _ => ⟨rfl, rfl, Nat.le_refl _⟩

instance (c : Constant) : Steady 0 b r (modifyBody (·.addConstant c)) :=
  steady_modifyBody fun _ => ⟨rfl, rfl, Nat.le_refl _⟩

instance (name : String) : Steady 0 b r (modifyBody (·.pushLocal name)) :=
  steady_modifyBody fun _ => ⟨rfl, rfl, Nat.le_refl _⟩

instance (arity : Nat) : Steady 0 b r (modifyBody fun b => { b with arity }) :=
  steady_modifyBody fun _ => ⟨rfl, rfl, Nat.le_refl _⟩

instance : Steady 0 b r markInitialized := by
  refine steady_modifyBody fun b => ?_
  split
  · exact ⟨rfl, rfl, Nat.le_refl _⟩
  · unfold Body.initializeLocal
    split <;> exact ⟨rfl, rfl, Nat.le_refl _⟩

instance (content : String) : Steady 0 b r (internString content) :=
  ⟨fun _ => .ofOnward (Course.same {}) rfl rfl rfl rfl⟩

/-! ## Moving on -/

instance (kind : TokenKind) : Steady 0 b r (check kind) := by unfold check; infer_instance

instance (kind : TokenKind) : Steady 0 b r (accept kind) := by unfold accept; infer_instance

instance (kind : TokenKind) (what : String) : Steady 0 b r (expect kind what) := by
  unfold expect; infer_instance

instance : Steady 0 b r atBlockEnd := by unfold atBlockEnd; infer_instance

/-- Where reading a token decides to go on, there is one token less ahead. -/
lemma steady_accept {kind : TokenKind} {f : Bool → Compiling β} (proper : kind ≠ .endOfInput)
    (yes : Steady k b r (f true)) (no : Steady k b (r + 1) (f false)) :
    Steady k b (r + 1) (accept kind >>= f) := by
  refine ⟨fun s => ?_⟩
  by_cases found : s.current.kind = kind
  · rw [accept_found found]
    exact (steady advance s).reading (fun fed => fed.advance_lt (found ▸ proper)) (yes.step _)
  · rw [accept_missing found]
    exact no.step s

lemma steady_skipToStatement (fuel : Nat) : Steady 0 b fuel (skipToStatement fuel) := by
  induction fuel with
  | zero => exact inferInstanceAs (Steady 0 b 0 (fail .endless))
  | succ fuel ih =>
    refine ⟨fun s => ?_⟩
    unfold skipToStatement
    show Step 0 b (fuel + 1) s ((if _ then _ else _ : Compiling Unit) s).2
    split
    · exact .refl s
    · next going =>
      refine (steady advance s).reading (fun fed => fed.advance_lt ?_) (ih.step _)
      intro ends
      simp [ends] at going

instance (fuel : Nat) [h : Below r fuel] : Steady 0 b r (skipToStatement fuel) :=
  ⟨fun s => ((steady_skipToStatement fuel).step s).mono h.le⟩

instance : Steady 0 b r synchronize := by unfold synchronize; infer_instance

/-! ## Emitting -/

/-- A fault that the size of the code excludes does not occur. -/
lemma steady_guard {c : State → Prop} [∀ s, Decidable (c s)] {fault : Fault}
    {f : State → Unit → Compiling β} (never : ∀ s : State, b ≤ s.body.size → ¬c s)
    (other : ∀ s u, Steady k b r (f s u)) :
    Steady k b r (get >>= fun s => if c s then fail fault >>= f s else f s ()) := by
  refine ⟨fun s => ?_⟩
  show Step k b r s ((if c s then _ else _ : Compiling β) s).2
  split
  · next failing =>
    have failed : Balanced 0 s (fail fault s).2 := (steady (b := b) (r := 0) (fail fault) s).toBalanced
    exact ⟨Nat.zero_add k ▸ failed.trans ((other s ()).step _).toBalanced,
      fun _ code => absurd failing (never s code)⟩
  · exact (other s ()).step s

instance (jump : UInt16 → Instr) : Raises JumpSite.start b r (emitJump jump) where
  steady := by unfold emitJump; infer_instance
  measures _ _ := Nat.le_refl _

instance (site : JumpSite) [h : Below site.start b] : Steady 0 b r (land site) := by
  unfold land
  exact steady_guard (fun s code => Nat.not_lt.2 (Nat.le_trans h.le code)) fun _ _ => inferInstance

instance (start : Nat) [h : Below start b] : Steady 0 b r (emitLoop start) := by
  unfold emitLoop
  exact steady_guard
    (fun s code => Nat.not_lt.2 (Nat.le_succ_of_le (Nat.le_trans h.le code))) fun _ _ => inferInstance

instance (c : Constant) : Steady 0 b r (makeConstant c) := by
  unfold makeConstant
  refine steady_bind inferInstance fun s => ?_
  dsimp only
  split <;> infer_instance

instance (content : String) : Steady 0 b r (stringConstant content) := by
  unfold stringConstant; infer_instance

instance (c : Constant) : Steady 0 b r (emitConstant c) := by unfold emitConstant; infer_instance

instance : Steady 0 b r emitReturn := by unfold emitReturn; infer_instance

/-! ## Scopes -/

/-- What is read in a scope leaves it. -/
instance (f : Unit → Compiling β) [h : ∀ u, Steady (k + 1) b r (f u)] :
    Steady k b r (beginScope >>= f) where
  step s := by
    have inside := (h ()).step (beginScope s).2
    have same : Onward s (beginScope s).2 := Course.same {}
    exact
      { onward := same.trans inside.onward
        kind := inside.kind
        depth := inside.depth.trans (Nat.add_sub_add_right s.body.depth 1 k)
        size := inside.size
        around := inside.around
        classes := inside.classes
        faultless := fun fed => inside.faultless (same.fed fed) }

instance : Steady (0 + 1) b r endScope where
  step s := by
    let left : State := { s with body := s.body.leaveScope }
    have leaves : Step 1 b r s left :=
      ⟨⟨Course.same {}, rfl, rfl, Nat.le_refl _, rfl, rfl⟩, fun _ _ _ => id⟩
    exact leaves.trans (steady (k := 0)
      (s.body.scopeLocals.forM fun v => emit (if v.isCaptured then .closeUpvalue else .pop)) left)

/-! ## Variables -/

lemma frame_addCapture (b : Body) (c : Capture) : (b.addCapture c).2.1.frame = b.frame := by
  unfold Body.addCapture
  split
  · rfl
  · split <;> rfl

/-- Finding a name in the bodies around marks variables there, and that is all. -/
lemma frames_resolveCapture (name : String) (around : List Body) :
    ∀ b : Body, (b.resolveCapture name around).2.1.frame = b.frame ∧
      (b.resolveCapture name around).2.2.1.map Body.frame = around.map Body.frame := by
  induction around with
  | nil => exact fun b => ⟨rfl, rfl⟩
  | cons first further ih =>
    intro b
    unfold Body.resolveCapture
    split
    · exact ⟨frame_addCapture _ _, rfl⟩
    · obtain ⟨frame, frames⟩ := ih first
      split
      · next around' further' complaints found =>
        rw [found] at frame frames
        exact ⟨rfl, by rw [List.map_cons, List.map_cons, frames]; exact congrArg (· :: _) frame⟩
      · next outer around' further' complaints found =>
        rw [found] at frame frames
        exact ⟨frame_addCapture _ _,
          by rw [List.map_cons, List.map_cons, frames]; exact congrArg (· :: _) frame⟩

lemma step_complaints (complaints : List Complaint) :
    ∀ s : State, Step 0 b r s (complaints.foldl (fun s c => s.complainOf s.previous c) s) := by
  induction complaints with
  | nil => exact Step.refl
  | cons c complaints ih => exact fun s => (s.step_complainOf _ c).andThen (ih _)

instance (name : String) : Steady 0 b r (modifyGet (·.resolve name) : Compiling (Option Access)) where
  step s := by
    show Step 0 b r s (s.resolve name).2
    unfold State.resolve
    split
    · exact step_complaints _ s
    · obtain ⟨frame, frames⟩ := frames_resolveCapture name s.enclosing s.body
      obtain ⟨kind, others⟩ := Prod.mk.inj frame
      obtain ⟨depth, size⟩ := Prod.mk.inj others
      refine Step.andThen ?_ (step_complaints _ _)
      exact ⟨⟨Course.same {}, kind, depth, Nat.le_of_eq size.symm, frames, rfl⟩, fun _ _ _ => id⟩

instance (name : String) : Steady 0 b r (access name) := by
  unfold access
  refine steady_bind inferInstance fun place => ?_
  split <;> infer_instance

instance (name : String) : Steady 0 b r (readVariable name) := by
  unfold readVariable; infer_instance

instance (name : String) : Steady 0 b r (addLocal name) := by unfold addLocal; infer_instance

instance : Steady 0 b r declareVariable := by unfold declareVariable; infer_instance

instance (what : String) : Steady 0 b r (parseVariable what) := by
  unfold parseVariable; infer_instance

instance (constant : UInt8) : Steady 0 b r (defineVariable constant) := by
  unfold defineVariable; infer_instance

/-- After a variable has been added there is one, if it was not one too many. -/
lemma locals_addLocal (name : String) (s : State) : (addLocal name s).2.body.locals ≠ [] := by
  unfold addLocal
  show ((if _ then _ else _ : Compiling Unit) s).2.body.locals ≠ []
  split
  · next full =>
    intro none
    have same : (complain .tooManyLocals s).2.body = s.body := by
      show (s.complainOf _ _).body = s.body
      unfold State.complainOf
      split <;> rfl
    rw [same] at none
    rw [none] at full
    exact absurd full (by decide)
  · exact List.cons_ne_nil _ _

lemma locals_markInitialized {s : State} (some : s.body.locals ≠ []) :
    (markInitialized s).2.body.locals ≠ [] := by
  show (if s.body.depth = 0 then s.body else s.body.initializeLocal).locals ≠ []
  split
  · exact some
  · unfold Body.initializeLocal
    split
    · exact some
    · exact List.cons_ne_nil _ _

lemma lastSlot_run {s : State} (some : s.body.locals ≠ []) :
    lastSlot s = (s.body.locals.length - 1, s) := by
  unfold lastSlot
  show (if s.body.locals.isEmpty = true then _ else _ : Compiling Nat) s = _
  rw [if_neg (by simpa using some)]
  rfl

/-- There is a last variable after one has been added. -/
instance (name : String) (f : Nat → Compiling β) [h : ∀ n, Steady k b r (f n)] :
    Steady k b r (addLocal name >>= fun _ => markInitialized >>= fun _ => lastSlot >>= f) where
  step s := by
    have adds := steady (k := 0) (b := b) (r := r) (addLocal name) s
    have marks := steady (k := 0) (b := b) (r := r) markInitialized (addLocal name s).2
    have both := adds.andThen marks
    have slot := lastSlot_run (locals_markInitialized (locals_addLocal name s))
    generalize added : (markInitialized (addLocal name s).2).2 = s' at both slot
    have run : (addLocal name >>= fun _ => markInitialized >>= fun _ => lastSlot >>= f) s =
        f (lastSlot s').1 (lastSlot s').2 := by
      rw [← added]
      rfl
    rw [run, slot]
    exact both.andThen ((h _).step s')

/-! ## Bodies -/

/-- A state as it is for the body around the innermost one. -/
def State.outer (s : State) (around : Body) (further : List Body) : State :=
  { s with body := around, enclosing := further }

/-- The action leaves the innermost body. -/
class Leaves (b r : Nat) (act : Compiling α) : Prop where
  step : ∀ s around further, s.enclosing = around :: further →
    Step 0 b r (s.outer around further) (act s).2

/-- What is read in a body leaves it. -/
instance (kind : BodyKind) (name : String) (f : Unit → Compiling β) [h : ∀ u, Leaves b r (f u)] :
    Steady 0 b r (openBody kind name >>= f) :=
  ⟨fun s => (h ()).step (openBody kind name s).2 s.body s.enclosing rfl⟩

/-- A later state of a body is one of the body around it. -/
lemma Step.outer {s s' : State} {around : Body} {further : List Body} (h : Step k 0 r s s')
    (enclosing : s.enclosing = around :: further) :
    ∃ around' further', s'.enclosing = around' :: further' ∧
      Step 0 b r (s.outer around further) (s'.outer around' further') := by
  have frames := h.around
  rw [enclosing] at frames
  cases enclosing' : s'.enclosing with
  | nil =>
    rw [enclosing'] at frames
    exact nomatch frames
  | cons around' further' =>
    rw [enclosing'] at frames
    obtain ⟨frame, frames⟩ := List.cons.inj frames
    obtain ⟨kind, others⟩ := Prod.mk.inj frame
    obtain ⟨depth, size⟩ := Prod.mk.inj others
    have before : Onward (s.outer around further) s := Course.same {}
    have after : Onward s' (s'.outer around' further') := Course.same {}
    exact ⟨around', further', rfl,
      ⟨(before.trans h.onward).trans after, kind, depth, Nat.le_of_eq size.symm, frames, h.classes⟩,
      fun fed _ short => h.faultless (before.fed fed) (Nat.zero_le _) short⟩

instance (act : Compiling α) (f : α → Compiling β) [first : Steady 0 0 r act]
    [second : ∀ a, Leaves b r (f a)] : Leaves b r (act >>= f) where
  step s around further enclosing := by
    obtain ⟨around', further', enclosing', outer⟩ := (first.step s).outer (b := b) enclosing
    exact outer.andThen ((second _).step _ around' further' enclosing')

instance (act : Compiling α) (next : Compiling β) [Steady 0 0 r act] [Leaves b r next] :
    Leaves b r (act >>= fun _ => next) := inferInstance

instance (f : Unit → Compiling β) [h : ∀ u, Leaves b r (f u)] : Leaves b r (beginScope >>= f) :=
  ⟨fun s => (h ()).step (beginScope s).2⟩

instance (c : Prop) [Decidable c] (x y : Compiling α) [Leaves b r x] [Leaves b r y] :
    Leaves b r (if c then x else y) := by
  split <;> infer_instance

instance (choice : Compiling Bool) (x y : Compiling β) [Steady 0 0 r choice] [Leaves b r x] [Leaves b r y] :
    Leaves b r (choice >>= fun b => if b then x else y) := inferInstance

instance (f : State → Compiling β) [h : ∀ s, Leaves b (min r s.budget) (f s)] :
    Leaves b r (get >>= f) where
  step s around further enclosing := by
    have step := (h s).step s around further enclosing
    exact ⟨step.toBalanced, fun fed code short =>
      step.faultless fed code (Nat.lt_min.2 ⟨short, fed.budget⟩)⟩

instance (f : Prototype × List Capture → Compiling β) [h : ∀ a, Steady 0 b r (f a)] :
    Leaves b r (closeFunction >>= f) where
  step s around further enclosing := by
    have open_ : ¬s.enclosing.isEmpty = true := by
      rw [enclosing]
      exact Bool.false_ne_true
    have closes : closeFunction s = closeBody s := by
      unfold closeFunction
      show (if s.enclosing.isEmpty = true then _ else _ : Compiling _) s = _
      rw [if_neg open_]
    obtain ⟨around', further', enclosing', returns⟩ :=
      (steady (k := 0) (b := 0) (r := r) emitReturn s).outer (b := b) enclosing
    show Step 0 b r _ (f (closeFunction s).1 (closeFunction s).2).2
    rw [closes]
    refine returns.andThen (Step.andThen ?_ ((h _).step _))
    show Step 0 b r _ (takeBody (emitReturn s).2).2
    unfold takeBody
    simp only [modifyGet, MonadStateOf.modifyGet, StateT.modifyGet, enclosing']
    exact .ofOnward (Course.same {}) rfl rfl rfl rfl

/-! ## Classes -/

/-- The action leaves the innermost class, of which it is known whether it has a superclass. -/
class Ends (k b r : Nat) (inherits : Bool) (act : Compiling α) : Prop where
  step : ∀ s further, s.classes = inherits :: further →
    Step k b r { s with classes := further } (act s).2

/-- A later state is one without regard to the classes, too. -/
lemma Step.withClasses {s s' : State} (h : Step k b r s s') (classes : List Bool) :
    Step k b r { s with classes } { s' with classes } := by
  have before : Onward { s with classes } s := Course.same {}
  have after : Onward s' { s' with classes } := Course.same {}
  exact ⟨⟨(before.trans h.onward).trans after, h.kind, h.depth, h.size, h.around, rfl⟩,
    fun fed => h.faultless (before.fed fed)⟩

section Ends

variable {inherits : Bool}

instance (act : Compiling α) (f : α → Compiling β) [first : Steady 0 b r act]
    [second : ∀ a, Ends k b r inherits (f a)] : Ends k b r inherits (act >>= f) where
  step s further classes := by
    have step := first.step s
    exact (step.withClasses further).andThen
      ((second _).step _ further (step.classes.trans classes))

instance (act : Compiling α) (next : Compiling β) [Steady 0 b r act] [Ends k b r inherits next] :
    Ends k b r inherits (act >>= fun _ => next) := inferInstance

instance (f : State → Compiling β)
    [h : ∀ s, Ends k (max b s.body.size) (min r s.budget) inherits (f s)] :
    Ends k b r inherits (get >>= f) where
  step s further classes := by
    have step := (h s).step s further classes
    exact ⟨step.toBalanced, fun fed code short =>
      step.faultless fed (Nat.max_le.2 ⟨code, Nat.le_refl _⟩) (Nat.lt_min.2 ⟨short, fed.budget⟩)⟩

instance (f : Unit → Compiling β) [h : ∀ u, Ends (k + 1) b r inherits (f u)] :
    Ends k b r inherits (beginScope >>= f) where
  step s further classes := by
    have inside := (h ()).step (beginScope s).2 further classes
    have same : Onward { s with classes := further } { (beginScope s).2 with classes := further } :=
      Course.same {}
    exact
      { onward := same.trans inside.onward
        kind := inside.kind
        depth := inside.depth.trans (Nat.add_sub_add_right s.body.depth 1 k)
        size := inside.size
        around := inside.around
        classes := inside.classes
        faultless := fun fed => inside.faultless (same.fed fed) }

instance (a : α) (f : α → Compiling β) [h : Ends k b r inherits (f a)] :
    Ends k b r inherits (pure a >>= f) := h

instance (c : Prop) [Decidable c] (x y : Compiling α) (f : α → Compiling β)
    [Ends k b r inherits (x >>= f)] [Ends k b r inherits (y >>= f)] :
    Ends k b r inherits ((if c then x else y) >>= f) := by
  split <;> infer_instance

instance (c : Prop) [Decidable c] (act : Compiling γ) (next : Compiling α) (f : α → Compiling β) [Steady 0 b r act]
    [Ends k b r inherits (next >>= f)] :
    Ends k b r inherits ((if c then act >>= fun _ => next else next) >>= f) := by
  split
  · exact inferInstanceAs (Ends k b r inherits (act >>= fun _ => next >>= f))
  · infer_instance

instance (act : Compiling γ) (g : γ → Compiling α) (f : α → Compiling β)
    [h : Ends k b r inherits (act >>= fun a => g a >>= f)] :
    Ends k b r inherits ((act >>= g) >>= f) := h

end Ends

/-- What is read in a class ends it. -/
lemma steady_class {f : Unit → Compiling β} (h : Ends k b r false (f ())) :
    Steady k b r ((modify fun s => { s with classes := false :: s.classes }) >>= f) where
  step s := h.step { s with classes := false :: s.classes } s.classes rfl

/-- After a superclass has been read there is one. -/
instance (f : Unit → Compiling β) [h : ∀ u, Ends k b r true (f u)] :
    Ends k b r false ((modify fun s => { s with classes := true :: s.classes.drop 1 }) >>= f) where
  step s further classes := by
    have marked : ({ s with classes := true :: s.classes.drop 1 } : State) =
        { s with classes := true :: further } := by
      rw [classes, List.drop_one, List.tail_cons]
    show Step k b r _ (f () { s with classes := true :: s.classes.drop 1 }).2
    rw [marked]
    exact (h ()).step { s with classes := true :: further } further rfl

/-- A superclass opens a scope, which is left by what comes next. -/
lemma ends_superclass (className : String) {f : Unit → Compiling β} (none : ∀ u, Ends k b r false (f u))
    (some : ∀ b r u, Ends (k + 1) b r true (f u)) : Ends k b r false (superclass className >>= f) := by
  unfold superclass
  infer_instance

/-- The end of a class is the end of the scope that its superclass has opened. -/
lemma ends_class {inherits : Bool} (left : k = inherits.toNat) :
    Ends k b r inherits (get >>= fun s : State =>
      (modify fun s => { s with classes := s.classes.drop 1 }) >>= fun _ =>
        if s.classes.headD false = true then endScope else pure ()) := by
  refine ⟨fun s further classes => ?_⟩
  rw [get_bind, classes, List.headD_cons]
  have ended : (modify (fun s => { s with classes := s.classes.drop 1 }) : Compiling Unit) s =
      ((), { s with classes := further }) := by
    show ((), ({ s with classes := s.classes.drop 1 } : State)) = _
    rw [classes, List.drop_one, List.tail_cons]
  show Step k b r _ ((if inherits = true then endScope else pure () : Compiling Unit)
    ((modify (fun s => { s with classes := s.classes.drop 1 }) : Compiling Unit) s).2).2
  rw [ended, left]
  cases inherits with
  | false => exact Step.refl _
  | true => exact (inferInstance : Steady (0 + 1) b r endScope).step _

instance : Ends 0 b r false (get >>= fun s : State =>
    (modify fun s => { s with classes := s.classes.drop 1 }) >>= fun _ =>
      if s.classes.headD false = true then endScope else pure ()) := ends_class rfl

instance : Ends (0 + 1) b r true (get >>= fun s : State =>
    (modify fun s => { s with classes := s.classes.drop 1 }) >>= fun _ =>
      if s.classes.headD false = true then endScope else pure ()) := ends_class rfl

/-! ## Expressions -/

section Phrases

variable (inner : Level) [inner.Steady]

instance : Steady 0 b r inner.expression := Level.Steady.operators b r _

lemma steady_arguments (fuel count : Nat) : Steady 0 b fuel (arguments inner fuel count) := by
  induction fuel generalizing count with
  | zero => exact inferInstanceAs (Steady 0 b 0 (fail .endless >>= fun _ => pure count))
  | succ fuel ih =>
    have turns : Steady 0 b (fuel + 1) (accept .comma >>= fun more =>
        if more then arguments inner fuel (count + 1) else pure (count + 1)) :=
      steady_accept TokenKind.noConfusion (ih (count + 1))
        (inferInstanceAs (Steady 0 b (fuel + 1) (pure (count + 1))))
    unfold arguments
    infer_instance

instance (fuel count : Nat) [h : Below r fuel] : Steady 0 b r (arguments inner fuel count) :=
  ⟨fun s => ((steady_arguments inner fuel count).step s).mono h.le⟩

instance : Steady 0 b r (argumentList inner) := by unfold argumentList; infer_instance

instance (canAssign : Bool) : Steady 0 b r (variableUse inner canAssign) := by
  unfold variableUse; infer_instance

instance : Steady 0 b r (superAccess inner) := by
  unfold superAccess
  refine steady_bind inferInstance fun s => ?_
  dsimp only
  split <;> infer_instance

instance (canAssign : Bool) : Steady 0 b r (property inner canAssign) := by
  unfold property
  infer_instance

instance (canAssign : Bool) (p : Precedence) (operator : Trailing) :
    Steady 0 b r (readTrailing inner canAssign p operator) := by
  cases operator <;> unfold readTrailing <;> infer_instance

/-- An operator after an operand is a token. -/
lemma trailing_before {kind : TokenKind} {found : Precedence × Trailing}
    (word : trailing? kind = some found) : kind ≠ .endOfInput := by
  rintro rfl
  exact nomatch word

lemma steady_trailingOperators (least : Precedence) (canAssign : Bool) (fuel : Nat) :
    Steady 0 b fuel (trailingOperators inner least canAssign fuel) := by
  induction fuel with
  | zero => exact inferInstanceAs (Steady 0 b 0 (fail .endless))
  | succ fuel ih =>
    unfold trailingOperators
    refine ⟨fun s => ?_⟩
    rw [get_bind]
    cases word : trailing? s.current.kind with
    | none => exact .refl s
    | some found =>
      obtain ⟨precedence, operator⟩ := found
      dsimp only
      split
      · have goes : Steady 0 b fuel (readTrailing inner canAssign precedence operator >>= fun _ =>
            trailingOperators inner least canAssign fuel) := inferInstance
        exact (steady advance s).reading (fun fed => fed.advance_lt (trailing_before word))
          (goes.step _)
      · exact .refl s

instance (least : Precedence) (canAssign : Bool) (fuel : Nat) [h : Below r fuel] :
    Steady 0 b r (trailingOperators inner least canAssign fuel) :=
  ⟨fun s => ((steady_trailingOperators inner least canAssign fuel).step s).mono h.le⟩

/-- The token of a string literal has its quotes. -/
lemma step_stringLiteral {s : State} (kind : s.previous.kind = .string) :
    Step 0 b r s (stringLiteral s).2 := by
  have rest : Steady 0 b r (internString (unquote s.previous.lexeme) >>= fun object =>
      emitConstant (.string object)) := inferInstance
  unfold stringLiteral
  show Step 0 b r s ((if isQuoted s.previous.lexeme = true then _ else _ : Compiling Unit) s).2
  split
  · exact rest.step s
  · next unquoted =>
    have failed : Balanced 0 s (fail .unquoted s).2 :=
      (steady (b := b) (r := 0) (fail .unquoted) s).toBalanced
    exact ⟨failed.trans (rest.step _).toBalanced,
      fun fed => absurd (fed.previous.string kind) unquoted⟩

lemma leading_string {kind : TokenKind} (word : leading? kind = some .string) : kind = .string := by
  cases kind <;> simp [leading?] at word <;> rfl

lemma steady_readLeading (canAssign : Bool) {start : Leading} (other : start ≠ .string) :
    Steady 0 b r (readLeading inner canAssign start) := by
  cases start with
  | string => exact absurd rfl other
  | _ =>
    unfold readLeading
    infer_instance

lemma step_readLeading {s : State} {canAssign : Bool} {start : Leading}
    (word : leading? s.previous.kind = some start) :
    Step 0 b r s (readLeading inner canAssign start s).2 := by
  by_cases string : start = .string
  · subst string
    exact step_stringLiteral (leading_string word)
  · exact (steady_readLeading inner canAssign string).step s

instance (least : Precedence) : Steady 0 b r (operatorsBody inner least) := by
  have ends : ∀ canAssign : Bool, Steady 0 b r (do
      trailingOperators inner least canAssign (← get).budget
      let assigns ← if canAssign then accept .equal else pure false
      if assigns then complain .invalidAssignment) := fun _ => inferInstance
  unfold operatorsBody
  refine steady_bind inferInstance fun _ => ?_
  dsimp only
  generalize decide (least ≤ Precedence.assignment) = canAssign
  refine ⟨fun s => ?_⟩
  rw [get_bind]
  cases word : leading? s.previous.kind with
  | none => exact s.step_complainOf s.previous _
  | some start => exact (step_readLeading inner word).andThen ((ends canAssign).step _)

/-! ## Functions -/

lemma steady_parameters (fuel count : Nat) : Steady 0 b fuel (parameters fuel count) := by
  induction fuel generalizing count with
  | zero => exact inferInstanceAs (Steady 0 b 0 (fail .endless))
  | succ fuel ih =>
    have turns : Steady 0 b (fuel + 1) (accept .comma >>= fun more =>
        if more then parameters fuel (count + 1) else pure ()) :=
      steady_accept TokenKind.noConfusion (ih (count + 1))
        (inferInstanceAs (Steady 0 b (fuel + 1) (pure ())))
    unfold parameters
    infer_instance

instance (fuel count : Nat) [h : Below r fuel] : Steady 0 b r (parameters fuel count) :=
  ⟨fun s => ((steady_parameters fuel count).step s).mono h.le⟩

instance (kind : BodyKind) : Steady 0 b r (function inner kind) := by
  unfold function
  infer_instance

instance : Steady 0 b r (functionDeclaration inner) := by
  unfold functionDeclaration
  infer_instance

instance : Steady 0 b r (method inner) := by
  unfold method
  infer_instance

instance : Steady 0 b r (variableDeclaration inner) := by
  unfold variableDeclaration
  infer_instance

instance : Steady 0 b r (printStatement inner) := by
  unfold printStatement
  infer_instance

instance : Steady 0 b r (expressionStatement inner) := by
  unfold expressionStatement
  infer_instance

instance : Steady 0 b r (returnStatement inner) := by
  unfold returnStatement
  infer_instance

instance : Steady 0 b r (ifStatement inner) := by
  unfold ifStatement
  infer_instance

instance : Steady 0 b r (whileStatement inner) := by
  unfold whileStatement
  infer_instance

instance : Steady 0 b r (forInitializer inner) := by
  unfold forInitializer
  infer_instance

/-! ## For loops -/

/-- How much code there has to be for the jump that leaves a loop, if there is one. -/
def exitBound : Option JumpSite → Nat
  | none => 0
  | some exit => exit.start

instance : Raises exitBound b r (forCondition inner) where
  steady := by unfold forCondition; infer_instance
  measures := by
    unfold forCondition
    refine measures_bind inferInstance fun missing => ?_
    split
    · exact measures_pure (Nat.zero_le _)
    · refine measures_bind inferInstance fun _ => measures_bind inferInstance fun _ => ?_
      refine measures_raise inferInstance fun exit => measures_bind inferInstance fun _ => ?_
      exact measures_pure (Nat.le_max_right _ _)

instance (start : Nat) [h : Below start b] :
    Raises (fun back => back) b r (forIncrement inner start) where
  steady := by unfold forIncrement; infer_instance
  measures := by
    unfold forIncrement
    refine measures_bind inferInstance fun missing => ?_
    split
    · exact measures_pure h.le
    · refine measures_raise inferInstance fun enter => measures_get fun s => ?_
      refine measures_bind inferInstance fun _ => measures_bind inferInstance fun _ => ?_
      refine measures_bind inferInstance fun _ => measures_bind inferInstance fun _ => ?_
      exact measures_bind inferInstance fun _ => measures_pure (Nat.le_max_right _ _)

instance (exit : Option JumpSite) [h : Below (exitBound exit) b] : Steady 0 b r (forExit exit) := by
  cases exit with
  | none => unfold forExit; infer_instance
  | some exit =>
    have below : Below exit.start b := h
    unfold forExit
    infer_instance

instance (loopVariable : Option (String × Nat)) : Steady 0 b r (forBody inner loopVariable) := by
  cases loopVariable with
  | none => unfold forBody; infer_instance
  | some copied =>
    obtain ⟨name, slot⟩ := copied
    unfold forBody
    infer_instance

instance : Steady 0 b r (forStatement inner) := by
  unfold forStatement
  infer_instance

/-! ## Loops up to the end of a block -/

section UnlessEnd

variable {act : Compiling Unit} {s : State}

lemma unlessEnd_done (closes : s.current.kind = .rightBrace ∨ s.current.kind = .endOfInput) :
    (atBlockEnd >>= fun done => if done = true then pure () else act) s = ((), s) := by
  show (if _ then _ else _ : Compiling Unit) s = _
  rw [if_pos (by simpa using closes)]
  rfl

lemma unlessEnd_going (inside : s.current.kind ≠ .rightBrace)
    (before : s.current.kind ≠ .endOfInput) :
    (atBlockEnd >>= fun done => if done = true then pure () else act) s = act s := by
  show (if _ then _ else _ : Compiling Unit) s = _
  rw [if_neg (by simp [inside, before])]

/-- Where what is repeated reads a token, there is one token less ahead. -/
lemma steady_unlessEnd {rest : Compiling Unit} (reads : Consumes act)
    (first : Steady 0 b (r + 1) act) (others : Steady 0 b r rest) :
    Steady 0 b (r + 1)
      (atBlockEnd >>= fun done => if done = true then pure () else act >>= fun _ => rest) := by
  refine ⟨fun s => ?_⟩
  by_cases closes : s.current.kind = .rightBrace ∨ s.current.kind = .endOfInput
  · rw [unlessEnd_done closes]
    exact .refl s
  · obtain ⟨inside, before⟩ := not_or.1 closes
    rw [unlessEnd_going inside before]
    exact (first.step s).reading (fun fed => reads.lt s fed before) (others.step _)

end UnlessEnd

section Loops

variable [inner.Consumes] [inner.Follows Onward]

instance : Consumes inner.expression := Level.Consumes.operators _

instance (kind : BodyKind) : Consumes (function inner kind) := by
  unfold function
  iterate 5 refine consumes_later inferInstance (fun _ => inferInstance) fun _ => ?_
  extract_lets rest
  have reads : ∀ u, Consumes (rest u) := by
    dsimp only [rest]
    infer_instance
  have follows : ∀ u, Follows Onward (rest u) := by
    dsimp only [rest]
    infer_instance
  split
  · exact reads ()
  · iterate 2 refine consumes_later inferInstance (fun _ => inferInstance) fun _ => ?_
    exact reads ()

instance : Consumes (method inner) := by
  unfold method
  infer_instance

lemma steady_methods (fuel : Nat) : Steady 0 b fuel (methods inner fuel) := by
  induction fuel with
  | zero => exact inferInstanceAs (Steady 0 b 0 (fail .endless))
  | succ fuel ih =>
    unfold methods
    exact steady_unlessEnd inferInstance inferInstance ih

instance (fuel : Nat) [h : Below r fuel] : Steady 0 b r (methods inner fuel) :=
  ⟨fun s => ((steady_methods inner fuel).step s).mono h.le⟩

instance : Steady 0 b r (classDeclaration inner) := by
  unfold classDeclaration
  iterate 6 refine steady_bind inferInstance fun _ => ?_
  exact steady_class (ends_superclass _ inferInstance inferInstance)

instance : Steady 0 b r (declaration inner) := by
  unfold declaration
  infer_instance

/-- A declaration reads its first word, or a statement. -/
instance : Consumes (declaration inner) := by
  have ends : Follows Onward (do if (← get).panicking then synchronize) := inferInstance
  unfold declaration
  refine consumes_accept inferInstance ?_
  dsimp only
  rw [if_neg Bool.false_ne_true]
  refine consumes_accept inferInstance ?_
  rw [if_neg Bool.false_ne_true]
  refine consumes_accept inferInstance ?_
  rw [if_neg Bool.false_ne_true]
  infer_instance

lemma steady_declarations (fuel : Nat) : Steady 0 b fuel (declarations inner fuel) := by
  induction fuel with
  | zero => exact inferInstanceAs (Steady 0 b 0 (fail .endless))
  | succ fuel ih =>
    unfold declarations
    exact steady_unlessEnd inferInstance inferInstance ih

instance (fuel : Nat) [h : Below r fuel] : Steady 0 b r (declarations inner fuel) :=
  ⟨fun s => ((steady_declarations inner fuel).step s).mono h.le⟩

instance : Steady 0 b r (blockBody inner) := by
  unfold blockBody
  infer_instance

instance : Steady 0 b r (statementBody inner) := by
  unfold statementBody
  infer_instance

/-- A statement reads its first word, or an expression. -/
instance : Consumes (statementBody inner) := by
  have reads : Consumes (expressionStatement inner) := by unfold expressionStatement; infer_instance
  unfold statementBody
  iterate 6
    refine consumes_accept inferInstance ?_
    rw [if_neg Bool.false_ne_true]
  exact reads

/-- A block reads a declaration, or else its closing brace. -/
instance : Consumes (blockBody inner) := by
  refine ⟨fun s fed before => ?_⟩
  have positive : s.budget = s.budget - 1 + 1 := by
    have := fed.budget
    omega
  let closing := expect .rightBrace "'\x7d' after block"
  show (closing (declarations inner s.budget s).2).2.rest.length < _
  have later := onward closing (declarations inner s.budget s).2
  rw [positive] at later ⊢
  unfold declarations at later ⊢
  by_cases closes : s.current.kind = .rightBrace
  · rw [unlessEnd_done (.inl closes)]
    show (expect .rightBrace _ s).2.rest.length < _
    rw [expect_found closes]
    exact fed.advance_lt before
  · refine Nat.lt_of_le_of_lt later.le ?_
    rw [unlessEnd_going closes before]
    exact reads_on (declaration inner >>= fun _ => declarations inner (s.budget - 1)) fed before

instance (least : Precedence) : Consumes (operatorsBody inner least) := by
  unfold operatorsBody
  refine consumes_first inferInstance fun _ => follows_bind inferInstance fun s => ?_
  dsimp only
  split <;> infer_instance

end Loops

end Phrases

/-! ## Programs -/

instance : Consumes refuseNesting := by unfold refuseNesting; infer_instance

instance : Steady 0 b r refuseNesting := by unfold refuseNesting; infer_instance

instance (n : Nat) : (level n).Consumes := by
  induction n with
  | zero =>
    have refuses : Consumes refuseNesting := inferInstance
    exact ⟨refuses, fun _ => refuses, refuses⟩
  | succ n ih =>
    exact ⟨inferInstanceAs (Consumes (statementBody (level n))),
      fun p => inferInstanceAs (Consumes (operatorsBody (level n) p)),
      inferInstanceAs (Consumes (blockBody (level n)))⟩

instance (n : Nat) : (level n).Steady := by
  induction n with
  | zero =>
    have refuses : ∀ b r, Steady 0 b r refuseNesting := fun _ _ => inferInstance
    exact ⟨refuses, fun b r _ => refuses b r, refuses⟩
  | succ n ih =>
    exact ⟨fun b r => inferInstanceAs (Steady 0 b r (statementBody (level n))),
      fun b r p => inferInstanceAs (Steady 0 b r (operatorsBody (level n) p)),
      fun b r => inferInstanceAs (Steady 0 b r (blockBody (level n)))⟩

/-- Nothing of the source is left to read. -/
structure State.Exhausted (s : State) : Prop where
  current : s.current.kind = .endOfInput
  rest : s.rest = []

section Programs

variable (outermost : Level) {s : State}

lemma program_done (fuel : Nat) (ends : s.current.kind = .endOfInput) :
    program outermost (fuel + 1) s = ((), (advance s).2) := by
  rw [program, accept_found ends]
  rfl

lemma program_going (fuel : Nat) (before : s.current.kind ≠ .endOfInput) :
    program outermost (fuel + 1) s = program outermost fuel (declaration outermost s).2 := by
  rw [program, accept_missing before]
  rfl

variable [outermost.Consumes] [outermost.Follows Onward]

lemma steady_program [outermost.Steady] (fuel : Nat) : Steady 0 b fuel (program outermost fuel) := by
  induction fuel with
  | zero => exact inferInstanceAs (Steady 0 b 0 (fail .endless))
  | succ fuel ih =>
    refine ⟨fun s => ?_⟩
    by_cases ends : s.current.kind = .endOfInput
    · rw [program_done outermost fuel ends]
      exact steady advance s
    · rw [program_going outermost fuel ends]
      exact (steady (declaration outermost) s).reading
        (fun fed => reads_on (declaration outermost) fed ends) (ih.step _)

/-- A program is read to the end of the source. -/
lemma program_exhausts (fuel : Nat) :
    ∀ s : State, s.Fed → s.rest.length < fuel → (program outermost fuel s).2.Exhausted := by
  induction fuel with
  | zero => exact fun _ _ short => absurd short (Nat.not_lt_zero _)
  | succ fuel ih =>
    intro s fed short
    by_cases ends : s.current.kind = .endOfInput
    · have none := fed.ends.atEnd.1 ends
      rw [program_done outermost fuel ends, advance_nil none]
      exact ⟨ends, none⟩
    · rw [program_going outermost fuel ends]
      have less := reads_on (declaration outermost) fed ends
      exact ih _ ((onward (declaration outermost) s).fed fed)
        (Nat.lt_of_lt_of_le less (Nat.le_of_lt_succ short))

end Programs

end Lox.Compile
