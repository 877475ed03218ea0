import Lox.Proofs.Compile.Tidiness

/-!
# Compilations keep tidy

Every action of the compilation leaves a tidy state tidy (`Upholds`), with one instance for each action.
Before the first token has been read the compilation is drowsy; but no instruction is emitted before
the next token has been read (`Wakes`).  So all functions of a compilation are finished as tidy bodies
(`compile_tidy`).
-/

namespace Lox.Compile

variable {α β γ : Type} {limit : Nat}

/-- The action leaves a tidy state tidy. -/
class Upholds (limit : Nat) (act : Compiling α) : Prop where
  step : ∀ s : State, s.Tidy limit → Tidies limit s (act s).2

/-- The actions for nested phrases leave a tidy state tidy. -/
class Level.Upholds (inner : Level) (limit : Nat) : Prop where
  statement : Compile.Upholds limit inner.statement
  operators : ∀ p, Compile.Upholds limit (inner.operators p)
  block : Compile.Upholds limit inner.block

attribute [instance] Level.Upholds.statement Level.Upholds.operators Level.Upholds.block

/-! ## Combinators -/

instance (a : α) : Upholds limit (pure a : Compiling α) := ⟨fun _ h => .refl h⟩

lemma upholds_bind {act : Compiling α} {f : α → Compiling β} (first : Upholds limit act)
    (second : ∀ a, Upholds limit (f a)) : Upholds limit (act >>= f) := by
  refine ⟨fun s h => ?_⟩
  have begun := first.step s h
  exact begun.trans ((second (act s).1).step (act s).2 begun.tidy)

section Sequences

variable (act : Compiling α) [first : Upholds limit act]

instance (f : α → Compiling β) [second : ∀ a, Upholds limit (f a)] : Upholds limit (act >>= f) :=
  upholds_bind first second

-- What comes next is looked at just once where it does not depend on the result.
instance (next : Compiling β) [second : Upholds limit next] : Upholds limit (act >>= fun _ => next) :=
  upholds_bind first fun _ => second

instance (f : α → Compiling β) (g : β → Compiling γ) [second : ∀ a, Upholds limit (f a)]
    [third : ∀ b, Upholds limit (g b)] : Upholds limit (act >>= fun a => f a >>= g) :=
  upholds_bind first fun a => upholds_bind (second a) third

instance (choice : Compiling Bool) (x y : Compiling β) [Upholds limit choice] [Upholds limit x] [Upholds limit y] :
    Upholds limit (choice >>= fun b => if b then x else y) :=
  upholds_bind inferInstance fun b => by split <;> infer_instance

instance (c : Prop) [Decidable c] (next : Compiling β) [Upholds limit next] :
    Upholds limit (if c then act >>= fun _ => next else next) := by
  split <;> infer_instance

end Sequences

instance : Upholds limit (get : Compiling State) := ⟨fun _ h => .refl h⟩

instance (c : Prop) [Decidable c] (x y : Compiling α) [Upholds limit x] [Upholds limit y] :
    Upholds limit (if c then x else y) := by
  split <;> infer_instance

lemma upholds_forM {l : List α} {f : α → Compiling PUnit} (each : ∀ a ∈ l, Upholds limit (f a)) :
    Upholds limit (l.forM f) := by
  induction l with
  | nil => exact inferInstanceAs (Upholds limit (pure ()))
  | cons a l ih =>
    have others := ih fun b there => each b (List.mem_cons_of_mem _ there)
    exact upholds_bind (each a List.mem_cons_self) fun _ => others

/-! ## Elementary actions -/

instance (complaint : Complaint) : Upholds limit (complain complaint) :=
  ⟨fun s h => h.complainOf s.previous complaint⟩

instance (complaint : Complaint) : Upholds limit (complainHere complaint) :=
  ⟨fun s h => h.complainOf s.current complaint⟩

instance (fault : Fault) : Upholds limit (fail fault) :=
  ⟨fun s h => h.still {} (h.toNeat.change (.refl _) (.refl _) rfl h.panics) (.refl _)⟩

/-- Another scope has the same code. -/
lemma upholds_modifyBody {f : Body → Body} (same : ∀ b : Body, b.SameCode (f b)) :
    Upholds limit (modifyBody f) :=
  ⟨fun s h => h.scope (same s.body)⟩

instance (name : String) : Upholds limit (modifyBody (·.pushLocal name)) :=
  upholds_modifyBody fun _ => ⟨rfl, rfl⟩

instance (arity : Nat) : Upholds limit (modifyBody fun b => { b with arity }) :=
  upholds_modifyBody fun _ => ⟨rfl, rfl⟩

instance (index : Nat) (distance : UInt16) :
    Upholds limit (modifyBody (·.aimJump index distance)) :=
  ⟨fun _ h => h.aims index distance⟩

instance (f : State → List Bool) :
    Upholds limit (modify fun s => { s with classes := f s } : Compiling Unit) :=
  ⟨fun s h => h.still ({} : SamePlace s { s with classes := f s })
    (h.toNeat.change (.refl _) (.refl _) rfl h.panics) (.refl _)⟩

instance : Upholds limit (modify fun s => { s with panicking := false } : Compiling Unit) :=
  ⟨fun s h => h.still ({} : SamePlace s { s with panicking := false })
    (h.toNeat.change (.refl _) (.refl _) rfl nofun) (.refl _)⟩

/-! ## The next token -/

/-- The action leaves a state tidy in which no token may have been read. -/
class Wakes (limit : Nat) (act : Compiling α) : Prop where
  step : ∀ s : State, s.Drowsy limit → Tidies limit s (act s).2

/-- The actions for nested phrases leave a state tidy in which no token may have been read. -/
class Level.Wakes (inner : Level) (limit : Nat) : Prop where
  statement : Compile.Wakes limit inner.statement
  operators : ∀ p, Compile.Wakes limit (inner.operators p)

attribute [instance] Level.Wakes.statement Level.Wakes.operators

lemma Wakes.upholds {act : Compiling α} (h : Wakes limit act) : Upholds limit act :=
  ⟨fun s tidy => h.step s tidy.drowsy⟩

instance : Wakes limit advance := ⟨fun _ h => h.advance⟩

instance : Upholds limit advance := Wakes.upholds inferInstance

lemma wakes_bind {act : Compiling α} {f : α → Compiling β} (first : Wakes limit act)
    (second : ∀ a, Upholds limit (f a)) : Wakes limit (act >>= f) := by
  refine ⟨fun s h => ?_⟩
  have begun := first.step s h
  exact begun.trans ((second (act s).1).step (act s).2 begun.tidy)

instance (act : Compiling α) (f : α → Compiling β) [first : Wakes limit act]
    [second : ∀ a, Upholds limit (f a)] : Wakes limit (act >>= f) :=
  wakes_bind first second

/-- Whether a choice reads the next token or goes the other way. -/
lemma wakes_accept {kind : TokenKind} {f : Bool → Compiling β} (later : Upholds limit (f true))
    (otherwise : Wakes limit (f false)) : Wakes limit (accept kind >>= f) := by
  refine ⟨fun s h => ?_⟩
  by_cases found : s.current.kind = kind
  · rw [accept_found found]
    have begun := h.advance
    exact begun.trans (later.step _ begun.tidy)
  · rw [accept_missing found]
    exact otherwise.step s h

/-! ## Moving on -/

instance (kind : TokenKind) : Upholds limit (check kind) := by unfold check; infer_instance

instance (kind : TokenKind) : Upholds limit (accept kind) := by unfold accept; infer_instance

instance (kind : TokenKind) (what : String) : Upholds limit (expect kind what) := by
  unfold expect; infer_instance

instance : Upholds limit atBlockEnd := by unfold atBlockEnd; infer_instance

instance (fuel : Nat) : Upholds limit (skipToStatement fuel) := by
  induction fuel with
  | zero => unfold skipToStatement; infer_instance
  | succ fuel ih => unfold skipToStatement; infer_instance

instance : Upholds limit synchronize := by unfold synchronize; infer_instance

/-! ## Emitting -/

/-- The instruction makes no closure. -/
class NoClosure (i : Instr) : Prop where
  none : makesClosure i = false

instance : NoClosure .pushNil := ⟨rfl⟩
instance : NoClosure .pop := ⟨rfl⟩
instance : NoClosure .print := ⟨rfl⟩
instance : NoClosure .closeUpvalue := ⟨rfl⟩
instance : NoClosure .ret := ⟨rfl⟩
instance : NoClosure .inherit := ⟨rfl⟩
instance (index : UInt8) : NoClosure (.constant index) := ⟨rfl⟩
instance (index : UInt8) : NoClosure (.getLocal index) := ⟨rfl⟩
instance (index : UInt8) : NoClosure (.setLocal index) := ⟨rfl⟩
instance (index : UInt8) : NoClosure (.defineGlobal index) := ⟨rfl⟩
instance (index : UInt8) : NoClosure (.getProperty index) := ⟨rfl⟩
instance (index : UInt8) : NoClosure (.setProperty index) := ⟨rfl⟩
instance (index : UInt8) : NoClosure (.getSuper index) := ⟨rfl⟩
instance (index : UInt8) : NoClosure (.makeClass index) := ⟨rfl⟩
instance (index : UInt8) : NoClosure (.method index) := ⟨rfl⟩
instance (count : UInt8) : NoClosure (.call count) := ⟨rfl⟩
instance (index count : UInt8) : NoClosure (.invoke index count) := ⟨rfl⟩
instance (index count : UInt8) : NoClosure (.superInvoke index count) := ⟨rfl⟩
instance (distance : UInt16) : NoClosure (.jump distance) := ⟨rfl⟩
instance (distance : UInt16) : NoClosure (.jumpIfFalse distance) := ⟨rfl⟩
instance (distance : UInt16) : NoClosure (.loop distance) := ⟨rfl⟩
instance (place : Access) : NoClosure place.read := ⟨by cases place <;> rfl⟩
instance (place : Access) : NoClosure place.write := ⟨by cases place <;> rfl⟩

lemma leading_plain {kind : TokenKind} {start : Leading} (word : leading? kind = some start) :
    ∀ i, start = .unary i ∨ start = .literal i → NoClosure i := by
  rintro i (rfl | rfl) <;> cases kind <;> cases word <;> exact ⟨rfl⟩

lemma trailing_plain {kind : TokenKind} {p : Precedence} {operator : Trailing}
    (word : trailing? kind = some (p, operator)) :
    ∀ is, operator = .binary is → ∀ i ∈ is, NoClosure i := by
  rintro is rfl i there
  have none : ∀ i ∈ is, makesClosure i = false := by
    cases kind <;> cases word <;> simp [makesClosure]
  exact ⟨none i there⟩

instance (i : Instr) [plain : NoClosure i] : Upholds limit (emit i) := by
  refine ⟨fun s h => h.emits (fun _ => ?_) ?_⟩
  · have none := plain.none
    cases i <;> trivial
  · rw [List.countP_cons_of_neg (Bool.eq_false_iff.1 plain.none)]
    exact (h.bodies s.body List.mem_cons_self).counted

instance (jump : UInt16 → Instr) [∀ distance, NoClosure (jump distance)] : Upholds limit (emitJump jump) := by
  unfold emitJump; infer_instance

instance (site : JumpSite) : Upholds limit (land site) := by unfold land; infer_instance

instance (start : Nat) : Upholds limit (emitLoop start) := by unfold emitLoop; infer_instance

/-- A string constant is the object of the table. -/
instance (content : String) : Upholds limit (stringConstant content) where
  step s h := by
    have interned := h.interns content
    have known : Known (State.moment { s with strings := (s.strings.intern content).2 })
        (.string (s.strings.intern content).1) := s.strings.has_intern content
    exact interned.trans (interned.tidy.makes known fun _ => nofun)

instance (text : String) : Upholds limit (emitConstant (.number (Decimal.read text))) := by
  have makes : Upholds limit (makeConstant (.number (Decimal.read text))) :=
    ⟨fun _ h => h.makes ⟨text, rfl⟩ fun _ => nofun⟩
  unfold emitConstant
  infer_instance

instance : Upholds limit emitReturn := by unfold emitReturn; infer_instance

instance : Upholds limit beginScope := upholds_modifyBody fun _ => ⟨rfl, rfl⟩

instance : Upholds limit endScope := by
  have leaves : Upholds limit (modifyBody (·.leaveScope)) := upholds_modifyBody fun _ => ⟨rfl, rfl⟩
  unfold endScope
  refine upholds_bind inferInstance fun _ => upholds_bind leaves fun _ => upholds_forM fun v _ => ?_
  split <;> infer_instance

instance (kind : BodyKind) (name : String) : Upholds limit (openBody kind name) :=
  ⟨fun _ h => h.opens kind name⟩

instance : Upholds limit takeBody := ⟨fun _ h => h.takes.1⟩

instance : Upholds limit closeBody := by unfold closeBody; infer_instance

/-! ## Variables -/

instance (name : String) :
    Upholds limit (modifyGet (·.resolve name) : Compiling (Option Access)) :=
  ⟨fun _ h => h.resolve name⟩

instance (name : String) : Upholds limit (access name) := by
  unfold access
  refine upholds_bind inferInstance fun place => ?_
  split <;> infer_instance

instance (name : String) : Upholds limit (readVariable name) := by
  unfold readVariable; infer_instance

instance (name : String) : Upholds limit (addLocal name) := by unfold addLocal; infer_instance

instance : Upholds limit declareVariable := by unfold declareVariable; infer_instance

instance : Upholds limit markInitialized := by
  refine upholds_modifyBody fun b => ?_
  split
  · exact .refl b
  · unfold Body.initializeLocal
    split <;> exact ⟨rfl, rfl⟩

instance (what : String) : Upholds limit (parseVariable what) := by
  unfold parseVariable; infer_instance

instance (constant : UInt8) : Upholds limit (defineVariable constant) := by
  unfold defineVariable; infer_instance

/-! ## Expressions -/

section Phrases

variable (inner : Level) [inner.Upholds limit]

instance : Upholds limit inner.expression := Level.Upholds.operators _

instance (fuel count : Nat) : Upholds limit (arguments inner fuel count) := by
  induction fuel generalizing count with
  | zero => unfold arguments; infer_instance
  | succ fuel ih => unfold arguments; infer_instance

instance : Upholds limit (argumentList inner) := by unfold argumentList; infer_instance

instance (canAssign : Bool) : Upholds limit (variableUse inner canAssign) := by
  unfold variableUse; infer_instance

instance : Upholds limit (superAccess inner) := by
  unfold superAccess
  refine upholds_bind inferInstance fun s => ?_
  dsimp only
  split <;> infer_instance

instance : Upholds limit stringLiteral := by
  have split : stringLiteral = (do
      let lexeme := (← get).previous.lexeme
      unless isQuoted lexeme do fail .unquoted
      emit (.constant (← stringConstant (unquote lexeme)))) := rfl
  rw [split]
  infer_instance

lemma upholds_readLeading (canAssign : Bool) {start : Leading}
    (plain : ∀ i, start = .unary i ∨ start = .literal i → NoClosure i) :
    Upholds limit (readLeading inner canAssign start) := by
  cases start with
  | unary i =>
    have := plain i (.inl rfl)
    unfold readLeading
    infer_instance
  | literal i =>
    have := plain i (.inr rfl)
    unfold readLeading
    infer_instance
  | _ => unfold readLeading; infer_instance

instance (canAssign : Bool) : Upholds limit (property inner canAssign) := by
  unfold property
  infer_instance

lemma upholds_readTrailing (canAssign : Bool) (p : Precedence) {operator : Trailing}
    (plain : ∀ is, operator = .binary is → ∀ i ∈ is, NoClosure i) :
    Upholds limit (readTrailing inner canAssign p operator) := by
  cases operator with
  | binary is =>
    have each : ∀ i ∈ is, Upholds limit (emit i) := fun i there =>
      have := plain is rfl i there
      inferInstance
    unfold readTrailing
    exact upholds_bind inferInstance fun _ => upholds_forM each
  | _ => unfold readTrailing; infer_instance

instance (least : Precedence) (canAssign : Bool) (fuel : Nat) :
    Upholds limit (trailingOperators inner least canAssign fuel) := by
  induction fuel with
  | zero => unfold trailingOperators; infer_instance
  | succ fuel ih =>
    unfold trailingOperators
    refine upholds_bind inferInstance fun s => ?_
    split
    · infer_instance
    · next p operator word =>
      have reads : Upholds limit (readTrailing inner canAssign p operator) :=
        upholds_readTrailing inner canAssign p (trailing_plain word)
      infer_instance

instance (least : Precedence) : Wakes limit (operatorsBody inner least) := by
  unfold operatorsBody
  refine wakes_bind inferInstance fun _ => upholds_bind inferInstance fun s => ?_
  dsimp only
  split
  · infer_instance
  · next start word =>
    have reads : ∀ canAssign, Upholds limit (readLeading inner canAssign start) := fun canAssign =>
      upholds_readLeading inner canAssign (leading_plain word)
    infer_instance

instance (least : Precedence) : Upholds limit (operatorsBody inner least) := Wakes.upholds inferInstance

/-! ## Statements -/

instance (fuel count : Nat) : Upholds limit (parameters fuel count) := by
  induction fuel generalizing count with
  | zero => unfold parameters; infer_instance
  | succ fuel ih => unfold parameters; infer_instance

/-- A body that ends is finished, and the body around it makes a closure of it. -/
lemma upholds_closing : Upholds limit (do
    let taken ← closeFunction
    let index ← makeConstant (.prototype taken.1)
    emit (.closure index taken.2)) := by
  have closing : Upholds limit (do
      let taken ← takeBody
      let index ← makeConstant (.prototype taken.1)
      emit (.closure index taken.2)) := by
    refine ⟨fun s h => ?_⟩
    obtain ⟨tidies, closable⟩ := h.takes
    exact tidies.trans (tidies.tidy.closes closable)
  have returns : Upholds limit (do
      emitReturn
      let taken ← takeBody
      let index ← makeConstant (.prototype taken.1)
      emit (.closure index taken.2)) :=
    upholds_bind inferInstance fun _ => closing
  refine ⟨fun s h => ?_⟩
  unfold closeFunction
  show Tidies limit s (((if s.enclosing.isEmpty = true then
    fail .noBodyAround >>= fun _ => closeBody else closeBody) >>= fun taken =>
      makeConstant (.prototype taken.1) >>= fun index => emit (.closure index taken.2)) s).2
  split
  · have fails : Upholds limit (fail .noBodyAround) := inferInstance
    have failed := fails.step s h
    exact failed.trans (returns.step _ failed.tidy)
  · exact returns.step s h

instance (kind : BodyKind) : Upholds limit (function inner kind) := by
  unfold function
  refine upholds_bind inferInstance fun s => upholds_bind inferInstance fun _ =>
    upholds_bind inferInstance fun _ => upholds_bind inferInstance fun _ => ?_
  refine upholds_bind inferInstance fun missing => ?_
  have rest : Upholds limit (do
      expect .rightParen "')' after parameters"
      expect .leftBrace "'\x7b' before function body"
      inner.block
      let taken ← closeFunction
      let index ← makeConstant (.prototype taken.1)
      emit (.closure index taken.2)) :=
    upholds_bind inferInstance fun _ => upholds_bind inferInstance fun _ =>
      upholds_bind inferInstance fun _ => upholds_closing
  split
  · exact rest
  · exact upholds_bind inferInstance fun _ => upholds_bind inferInstance fun _ => rest

instance : Upholds limit (functionDeclaration inner) := by
  unfold functionDeclaration
  infer_instance

instance : Upholds limit (method inner) := by
  unfold method
  infer_instance

instance (fuel : Nat) : Upholds limit (methods inner fuel) := by
  induction fuel with
  | zero => unfold methods; infer_instance
  | succ fuel ih => unfold methods; infer_instance

instance (className : String) : Upholds limit (superclass className) := by
  unfold superclass
  infer_instance

instance : Upholds limit (classDeclaration inner) := by
  unfold classDeclaration
  infer_instance

instance : Upholds limit (variableDeclaration inner) := by
  unfold variableDeclaration
  infer_instance

instance : Upholds limit (declaration inner) := by
  unfold declaration
  infer_instance

instance (fuel : Nat) : Upholds limit (declarations inner fuel) := by
  induction fuel with
  | zero => unfold declarations; infer_instance
  | succ fuel ih => unfold declarations; infer_instance

instance : Upholds limit (blockBody inner) := by
  unfold blockBody
  infer_instance

instance : Upholds limit (printStatement inner) := by
  unfold printStatement
  infer_instance

instance : Upholds limit (expressionStatement inner) := by
  unfold expressionStatement
  infer_instance

instance : Upholds limit (returnStatement inner) := by
  unfold returnStatement
  infer_instance

instance : Upholds limit (ifStatement inner) := by
  unfold ifStatement
  infer_instance

instance : Upholds limit (whileStatement inner) := by
  unfold whileStatement
  infer_instance

instance : Upholds limit (forInitializer inner) := by
  unfold forInitializer
  infer_instance

instance : Upholds limit (forCondition inner) := by
  unfold forCondition
  infer_instance

instance (start : Nat) : Upholds limit (forIncrement inner start) := by
  unfold forIncrement
  infer_instance

instance : Upholds limit lastSlot := by unfold lastSlot; infer_instance

instance (loopVariable : Option (String × Nat)) : Upholds limit (forBody inner loopVariable) := by
  cases loopVariable <;> unfold forBody <;> infer_instance

instance (exit : Option JumpSite) : Upholds limit (forExit exit) := by
  cases exit <;> unfold forExit <;> infer_instance

instance : Upholds limit (forStatement inner) := by
  unfold forStatement
  infer_instance

instance : Upholds limit (statementBody inner) := by
  unfold statementBody
  infer_instance

section Wakes

variable [inner.Wakes limit]

instance : Wakes limit inner.expression := Level.Wakes.operators _

/-- A statement reads its first word, or an expression. -/
instance : Wakes limit (statementBody inner) := by
  have reads : Wakes limit (expressionStatement inner) := by
    unfold expressionStatement
    infer_instance
  unfold statementBody
  iterate 6
    refine wakes_accept inferInstance ?_
    rw [if_neg Bool.false_ne_true]
  exact reads

/-- A declaration reads its first word, or a statement. -/
instance : Wakes limit (declaration inner) := by
  have reads : Wakes limit (do inner.statement; if (← get).panicking then synchronize) := inferInstance
  unfold declaration
  iterate 3
    refine wakes_accept inferInstance ?_
    rw [if_neg Bool.false_ne_true]
  exact reads

end Wakes

end Phrases

/-! ## Programs -/

instance : Wakes limit refuseNesting := by
  refine ⟨fun s h => ?_⟩
  have complains : (s.complainOf s.current .tooDeep).Drowsy limit := by
    have place := s.samePlace_complainOf s.current .tooDeep
    refine { h.toNeat.complainOf s.current .tooDeep, h.toInLine.still place with ahead := ?_ }
    rw [place.current]
    exact h.ahead
  have reads := complains.advance
  exact ⟨reads.tidy, (s.moment_complainOf _ _).trans reads.later⟩

instance (n : Nat) : (level n).Upholds limit := by
  induction n with
  | zero =>
    have refuses : Upholds limit refuseNesting := Wakes.upholds inferInstance
    exact ⟨refuses, fun _ => refuses, refuses⟩
  | succ n ih =>
    exact ⟨inferInstanceAs (Upholds limit (statementBody (level n))),
      fun p => inferInstanceAs (Upholds limit (operatorsBody (level n) p)),
      inferInstanceAs (Upholds limit (blockBody (level n)))⟩

instance (n : Nat) : (level n).Wakes limit := by
  induction n with
  | zero =>
    have refuses : Wakes limit refuseNesting := inferInstance
    exact ⟨refuses, fun _ => refuses⟩
  | succ n ih =>
    exact ⟨inferInstanceAs (Wakes limit (statementBody (level n))),
      fun p => inferInstanceAs (Wakes limit (operatorsBody (level n) p))⟩

instance (n fuel : Nat) : Upholds limit (program (level n) fuel) := by
  induction fuel with
  | zero => unfold program; infer_instance
  | succ fuel ih => unfold program; infer_instance

/-- A program reads the end of the source, or a declaration. -/
lemma wakes_program (n fuel : Nat) : Wakes limit (program (level n) (fuel + 1)) := by
  have reads : Wakes limit (do declaration (level n); program (level n) fuel) := inferInstance
  unfold program
  refine wakes_accept inferInstance ?_
  exact reads

end Lox.Compile

namespace Lox

open Compile

/-! ## Compilations -/

/-- The function that a compilation comes to, and the state it ends in, whether or not there is
something to complain of. -/
def compiled (source : String) (strings : StringTable) (serial : Nat) : Prototype × State :=
  script (.start (Token.scan source) strings serial)

/-- The last line of a source. -/
def lastLine (source : String) : Nat := 1 + source.toList.count '\n'

lemma Token.line_le_lastLine {source : String} {t : Token} (there : t ∈ (Token.scan source).toList) :
    t.line ≤ lastLine source := by
  obtain ⟨n, tokens, -⟩ := Token.nth_stands source
  rw [tokens] at there
  obtain ⟨k, -, rfl⟩ := List.mem_map.1 there
  rw [(Token.nth_stands_one source k).line]
  exact Nat.add_le_add_left ((List.take_sublist _ _).count_le '\n') 1

/-- Before its first token is read a compilation is drowsy. -/
lemma drowsy_start (source : String) (strings : StringTable) (serial : Nat) :
    (advance (.start (Token.scan source) strings serial)).2.Drowsy (lastLine source) ∧
      strings.Grows (advance (.start (Token.scan source) strings serial)).2.strings := by
  obtain ⟨sorted, positive⟩ := Token.scan_ordered source
  have ordered := ordered_start source strings serial
  let start : State := .start (Token.scan source) strings serial
  have neat : start.Neat := by
    refine ⟨?_, ?_, ?_, nofun⟩
    · intro b there
      rw [List.mem_singleton.1 there]
      exact .start start.moment .script ""
    · intro b there p inside
      rw [List.mem_singleton.1 there] at inside
      exact absurd inside (Array.not_mem_empty _)
    · exact fun p there => absurd there (Array.not_mem_empty p)
  have inLine : start.InLine (lastLine source) := by
    constructor
    · refine .cons (fun t _ => Nat.zero_le _) (.cons (fun t _ => Nat.zero_le _) ?_)
      exact sorted.imp fun h => h.line
    · intro t there
      rcases List.mem_cons.1 there with rfl | there
      · exact Nat.zero_le _
      · rcases List.mem_cons.1 there with rfl | there
        · exact Nat.zero_le _
        · exact Token.line_le_lastLine there
  obtain ⟨neat', inLine', later, -⟩ := State.neat_settle _ neat inLine rfl
  exact ⟨{ neat', inLine' with ahead := positive _ (ordered.known _ List.mem_cons_self) }, later.strings⟩

/-- A script that has read its first token reads its declarations and is finished. -/
lemma Compile.tidies_script {limit : Nat} {s : State} (h : (advance s).2.Drowsy limit)
    (some : 0 < (advance s).2.budget) :
    Tidies limit (advance s).2 (script s).2 ∧ AllFinished (script s).2.moment (script s).1 := by
  obtain ⟨fuel, budget⟩ := Nat.exists_eq_succ_of_ne_zero (Nat.ne_of_gt some)
  have reads := (wakes_program maxNesting fuel).step _ h
  rw [← Nat.succ_eq_add_one, ← budget] at reads
  have returns : Upholds limit emitReturn := inferInstance
  have ended := returns.step _ reads.tidy
  obtain ⟨taken, closable⟩ := ended.tidy.takes
  exact ⟨(reads.trans ended).trans taken, closable.finished⟩

/-- All functions of a compilation are finished, and so is the one that it comes to. -/
theorem compile_tidy (source : String) (strings : StringTable) (serial : Nat) :
    (compiled source strings serial).2.Tidy (lastLine source) ∧
      strings.Grows (compiled source strings serial).2.strings ∧
      AllFinished (compiled source strings serial).2.moment (compiled source strings serial).1 := by
  obtain ⟨drowsy, grows⟩ := drowsy_start source strings serial
  have some := (fed_start source strings serial).budget
  obtain ⟨tidies, finished⟩ := tidies_script drowsy (Nat.zero_lt_of_lt some)
  exact ⟨tidies.tidy, grows.trans tidies.later.strings, finished⟩

/-- What is known at the end of a compilation of the functions that it has finished, and of the one that
it comes to. -/
theorem compile_finished (source : String) (strings : StringTable) (serial : Nat) :
    ∃ T : Moment, T.quiet = (compiled source strings serial).2.diagnostics.isEmpty ∧
      T.strings = (compiled source strings serial).2.strings ∧ strings.Grows T.strings ∧
      T.line ≤ lastLine source ∧ AllFinished T (compiled source strings serial).1 ∧
      ∀ p ∈ (compiled source strings serial).2.finished, AllFinished T p := by
  have all := compile_tidy source strings serial
  generalize compiled source strings serial = done at all ⊢
  obtain ⟨tidy, grows, finished⟩ := all
  exact ⟨done.2.moment, rfl, rfl, grows, tidy.within _ List.mem_cons_self, finished, tidy.finished⟩

end Lox
