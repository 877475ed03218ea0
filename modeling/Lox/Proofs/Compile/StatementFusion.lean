import Lox.Proofs.Compile.Fusion
import Lox.Proofs.Compile.Programs
import Lox.Proofs.Syntax.Derivation

/-!
# Reading a program is building it

The compiler and building go in step on statements, declarations and whole programs, too
(`Stmt.Reads.fused`).  After every declaration the compiler stops panicking; that makes no difference,
as it panics only when something has been complained of.
-/

namespace Lox.Compile

open Syntax

variable {α β : Type} {s : State} {ws mid rest : List Word}

namespace Fuses

/-- The actions start with the same one, which leaves the place among the tokens as it is. -/
lemma stay {act : Compiling α} {f f' : α → Compiling β} [still : Still act] [Careful act]
    (faces : s.Faces ws)
    (second : ∀ a t, t.Faces ws → t.previous = s.previous → Fuses (f a) (f' a) t rest) :
    Fuses (act >>= f) (act >>= f') s rest :=
  second _ _ (faces.still act) (still.samePlace s).previous

/-- Where the next word is this one, the choice takes the first way. -/
lemma take {kind : TokenKind} {text : String} {x y : Compiling β} {f' : Unit → Compiling β}
    (before : kind ≠ .endOfInput) (faces : s.Faces (⟨kind, text⟩ :: ws))
    (second : ∀ t, t.Faces ws → t.previous.word = ⟨kind, text⟩ → Fuses x (f' ()) t rest) :
    Fuses (Compile.accept kind >>= fun found => if found = true then x else y)
      (Compile.advance >>= f') s rest :=
  .accept before faces second

/-- Where the next word is another one, the choice takes the second way. -/
lemma skip {kind : TokenKind} {x y act' : Compiling β} (faces : s.Faces ws)
    (other : nextKind ws ≠ some kind) (second : Fuses y act' s rest) :
    Fuses (Compile.accept kind >>= fun found => if found = true then x else y) act' s rest :=
  .refuse faces other second

/-- What is done under a condition stands before the rest of the action. -/
lemma complains {p : Prop} [Decidable p] {x : Compiling Unit} {f : Unit → Compiling β}
    {act' : Compiling β} (h : Fuses ((if p then x else pure ()) >>= f) act' s rest) :
    Fuses (if p then x >>= f else f ()) act' s rest := by
  refine .left _ ?_ h
  split <;> rfl

/-- The actions choose by the same condition. -/
lemma ite {p : Prop} [Decidable p] {x y x' y' : Compiling β} (yes : Fuses x x' s rest)
    (no : Fuses y y' s rest) : Fuses (if p then x else y) (if p then x' else y') s rest := by
  split
  · exact yes
  · exact no

/-- The first part of the left action does what another action does. -/
lemma leftFirst (act : Compiling α) {first : Compiling α} {f : α → Compiling β}
    {act' : Compiling β} (same : first s = act s) (h : Fuses (act >>= f) act' s rest) :
    Fuses (first >>= f) act' s rest := by
  refine .left (act >>= f) ?_ h
  show f (first s).1 (first s).2 = f (act s).1 (act s).2
  rw [same]

/-- After a declaration the compiler stops panicking. -/
lemma declared {act act' : Compiling Unit} (h : Fuses act act' s rest) :
    Fuses (act >>= fun _ => get >>= fun s => if s.panicking = true then synchronize else pure ()) act'
      s rest := by
  show Fuses _ (act' >>= fun _ => pure ()) s rest
  refine .bind h fun _ t faces => .getLeft ?_
  by_cases panicking : t.panicking = true
  · exact .fails (faces.sane panicking)
  · rw [if_neg panicking]
    exact .same _ faces

/-- A sequence ends where a block may end. -/
lemma ends {f : Bool → Compiling β} {act' : Compiling β} (faces : s.Faces ws) (last : EndsBlock ws)
    (second : Fuses (f true) act' s rest) : Fuses (atBlockEnd >>= f) act' s rest := by
  have here : (decide (s.current.kind = .rightBrace) || decide (s.current.kind = .endOfInput)) =
      true := by
    unfold EndsBlock at last
    simpa [faces.kind] using last
  refine .left (f true) ?_ second
  show f (decide (s.current.kind = .rightBrace) || decide (s.current.kind = .endOfInput)) s = _
  rw [here]

/-- A sequence goes on where no block may end. -/
lemma goesOn {f : Bool → Compiling β} {act' : Compiling β} (faces : s.Faces ws)
    (more : ¬EndsBlock ws) (second : Fuses (f false) act' s rest) :
    Fuses (atBlockEnd >>= f) act' s rest := by
  have here : (decide (s.current.kind = .rightBrace) || decide (s.current.kind = .endOfInput)) =
      false := by
    unfold EndsBlock at more
    simpa [faces.kind] using more
  refine .left (f false) ?_ second
  show f (decide (s.current.kind = .rightBrace) || decide (s.current.kind = .endOfInput)) s = _
  rw [here]

end Fuses

end Lox.Compile

namespace Lox.Syntax

open Compile

variable {s : State} {ws mid rest : List Word}

lemma ReadsExpr.fused {stop : TokenKind} {e : Expr .expression}
    (h : ReadsExpr ws e (.mark stop :: rest)) (other : stop ≠ .equal) :
    OperatorsFused .assignment ws e (.mark stop :: rest) :=
  Goal.Reads.fused h fun equal => other (Option.some.inj equal)

/-! ## Variables -/

/-- A variable is declared by the name in the words. -/
lemma parseVariable_fused {α : Type} {x what : String} {f f' : UInt8 → Compiling α}
    (faces : s.Faces (.name x :: ws))
    (second : ∀ constant t, t.Faces ws → t.previous.lexeme = x →
      Fuses (f constant) (f' constant) t rest) :
    Fuses (parseVariable what >>= f) (bindName x >>= f') s rest := by
  have declares : ∀ t : State, t.previous.lexeme = x → declareVariable t = declareName x t := by
    rintro t rfl
    rfl
  show Fuses (expect .identifier what >>= fun _ => declareVariable >>= fun _ => get >>= fun s =>
      (if s.body.depth = 0 then stringConstant s.previous.lexeme else pure 0) >>= f)
    (advance >>= fun _ => declareName x >>= fun _ => get >>= fun s =>
      (if s.body.depth = 0 then stringConstant x else pure 0) >>= f') s rest
  refine .expect (by decide) faces fun t faces word => ?_
  have name : t.previous.lexeme = x := lexeme_of_word word rfl
  refine .leftFirst _ (declares t name) (.stay faces fun _ u faces same => .getBoth ?_)
  rw [same, name]
  exact .stay faces fun constant v faces same' =>
    second constant v faces (by rw [same', same, name])

lemma ReadsBinding.fused {x : String} {value : Option (Expr .expression)}
    (h : ReadsBinding ws x value rest) (n : Nat) (faces : s.Faces ws) :
    Fuses (variableDeclaration (level n)) (buildBinding x value n) s rest := by
  unfold variableDeclaration buildBinding
  cases h with
  | none =>
    refine parseVariable_fused faces fun constant t faces _ => ?_
    refine .refuse faces (by simp [nextKind]) (.still faces fun _ t faces => ?_)
    exact .expect (by decide) faces fun t faces _ => .same _ faces
  | some reads =>
    refine parseVariable_fused faces fun constant t faces _ => ?_
    refine .accept (by decide) faces fun t faces _ => ?_
    refine Fuses.bind (reads.fused (by simp) n t faces) fun _ t faces => ?_
    exact .expect (by decide) faces fun t faces _ => .same _ faces

/-! ## Loops -/

lemma expressionStatement_fused {e : Expr .expression}
    (reads : ReadsExpr ws e (.mark .semicolon :: rest)) (n : Nat) (faces : s.Faces ws) :
    Fuses (expressionStatement (level n)) (do e.expression n; advance; emit .pop) s rest := by
  refine Fuses.bind (reads.fused (by simp) n s faces) fun _ t faces => ?_
  exact .expect (by decide) faces fun t faces _ => .same _ faces

lemma Initializer.Reads.fused {first : Initializer} (h : Initializer.Reads ws first rest) (n : Nat)
    (faces : s.Faces ws) : Fuses (forInitializer (level n)) (first.build n) s rest := by
  unfold forInitializer
  cases h with
  | none => exact .take (by decide) faces fun t faces _ => Fuses.same (pure Option.none) faces
  | var reads =>
    refine .skip faces (by simp [nextKind]) (.take (by decide) faces fun t faces _ => ?_)
    exact .bind (reads.fused n faces) fun _ t faces => .same _ faces
  | @expression ws e rest reads =>
    have starts : StartsExpr ws := Goal.Reads.starts reads
    refine .skip faces (starts.other rfl) (.skip faces (starts.other rfl) ?_)
    have whole : Fuses (do expressionStatement (level n); pure (Option.none : Option (String × Nat)))
        ((do e.expression n; advance; emit .pop) >>= fun _ => pure Option.none) s rest :=
      .bind (expressionStatement_fused reads n faces) fun _ t faces => .same (pure Option.none) faces
    exact whole

lemma condition_fused {c : Option (Expr .expression)} (h : ReadsClause .semicolon ws c rest) (n : Nat)
    (faces : s.Faces ws) : Fuses (forCondition (level n)) (buildCondition n c) s rest := by
  unfold forCondition
  cases h with
  | none => exact .take (by decide) faces fun t faces _ => Fuses.same (pure none) faces
  | some reads =>
    have starts : StartsExpr ws := Goal.Reads.starts reads
    refine .skip faces (starts.other rfl) ?_
    refine Fuses.bind (reads.fused (by simp) n s faces) fun _ t faces => ?_
    exact .expect (by decide) faces fun t faces _ => .same _ faces

lemma increment_fused {step : Option (Expr .expression)} (h : ReadsClause .rightParen ws step rest)
    (n start : Nat) (faces : s.Faces ws) :
    Fuses (forIncrement (level n) start) (buildIncrement n start step) s rest := by
  unfold forIncrement
  cases h with
  | none => exact .take (by decide) faces fun t faces _ => Fuses.same (pure start) faces
  | some reads =>
    have starts : StartsExpr ws := Goal.Reads.starts reads
    refine .skip faces (starts.other rfl) (.still faces fun enter t faces => .getBoth ?_)
    refine Fuses.bind (reads.fused (by simp) n t faces) fun _ u faces => .still faces fun _ u faces => ?_
    exact .expect (by decide) faces fun u faces _ => .same _ faces

/-! ## Statements -/

/-- The compiler and building go in step on a statement. -/
def StatementFused (ws : List Word) (t : Stmt .statement) (rest : List Word) : Prop :=
  ∀ n s, s.Faces ws → Fuses (statementBody (level n)) (t.build n) s rest

lemma StatementFused.nested {t : Stmt .statement} (h : StatementFused ws t rest) (n : Nat)
    (faces : s.Faces ws) : Fuses (level n).statement (within n t.build) s rest := by
  cases n with
  | zero => exact .refuseNesting faces.sane
  | succ n => exact h n s faces

/-- They go in step on a declaration. -/
def DeclarationFused (ws : List Word) (d : Stmt .declaration) (rest : List Word) : Prop :=
  ∀ n s, s.Faces ws → Fuses (declaration (level n)) (d.build n) s rest

/-- They go in step on the declarations of a block. -/
def DeclarationsFused (ws : List Word) (ds : Stmt .declarations) (rest : List Word) : Prop :=
  ∀ n fuel s, s.Faces ws → ws.length ≤ fuel →
    Fuses (declarations (level n) fuel) (ds.build n) s rest

/-- They go in step on the methods of a class. -/
def MethodsFused (ws : List Word) (ms : Stmt .methods) (rest : List Word) : Prop :=
  ∀ n fuel s, s.Faces ws → ws.length ≤ fuel → Fuses (methods (level n) fuel) (ms.build n) s rest

lemma print_fused {e : Expr .expression} (reads : ReadsExpr ws e (.mark .semicolon :: rest)) :
    StatementFused (.mark .kwPrint :: ws) (.print e) rest := by
  intro n s faces
  unfold statementBody Stmt.build
  refine .take (by decide) faces fun t faces _ => ?_
  refine Fuses.bind (reads.fused (by simp) n t faces) fun _ t faces => ?_
  exact .expect (by decide) faces fun t faces _ => .same _ faces

lemma expression_fused {e : Expr .expression} (reads : ReadsExpr ws e (.mark .semicolon :: rest)) :
    StatementFused ws (.expression e) rest := by
  intro n s faces
  have starts : StartsExpr ws := Goal.Reads.starts reads
  unfold statementBody Stmt.build
  refine .skip faces (starts.other rfl) (.skip faces (starts.other rfl) ?_)
  refine .skip faces (starts.other rfl) (.skip faces (starts.other rfl) ?_)
  refine .skip faces (starts.other rfl) (.skip faces (starts.other rfl) ?_)
  exact expressionStatement_fused reads n faces

lemma return_fused {value : Option (Expr .expression)} (reads : ReadsClause .semicolon ws value rest) :
    StatementFused (.mark .kwReturn :: ws) (.ret value) rest := by
  intro n s faces
  unfold statementBody Stmt.build
  refine .skip faces (by simp [nextKind]) (.skip faces (by simp [nextKind]) ?_)
  cases reads with
  | none =>
    refine .take (by decide) faces fun t faces _ => ?_
    unfold returnStatement
    refine .getLeft (.complains (.leftFirst checkInside rfl (.still faces fun _ u faces => ?_)))
    exact .take (by decide) faces fun u faces _ => Fuses.same emitReturn faces
  | some reads =>
    have starts : StartsExpr ws := Goal.Reads.starts reads
    refine .take (by decide) faces fun t faces _ => ?_
    unfold returnStatement
    refine .getLeft (.complains (.leftFirst checkInside rfl (.still faces fun _ u faces => ?_)))
    refine .skip faces (starts.other rfl) (.getLeft (.complains ?_))
    refine .leftFirst checkPlain rfl (.still faces fun _ v faces => ?_)
    refine Fuses.bind (reads.fused (by simp) n v faces) fun _ v faces => ?_
    exact .expect (by decide) faces fun v faces _ => .same _ faces

/-- A conditional goes in step up to the end of its first branch. -/
lemma branch_fused {c : Expr .expression} {t : Stmt .statement} {f f' : JumpSite → Compiling Unit}
    [∀ other, Careful (f other)] [∀ other, Careful (f' other)]
    (condition : ReadsExpr ws c (.mark .rightParen :: mid)) (branch : StatementFused mid t rest')
    (n : Nat) (faces : s.Faces (.mark .leftParen :: ws))
    (others : ∀ other u, u.Faces rest' → Fuses (f other) (f' other) u rest) :
    Fuses
      (do
        expect .leftParen "'(' after 'if'"
        (level n).expression
        expect .rightParen "')' after condition"
        let other ← emitJump .jumpIfFalse
        emit .pop
        (level n).statement
        f other)
      (do
        advance
        c.expression n
        advance
        let other ← emitJump .jumpIfFalse
        emit .pop
        within n t.build
        f' other) s rest := by
  refine .expect (by decide) faces fun u faces _ => ?_
  refine Fuses.bind (condition.fused (by simp) n u faces) fun _ u faces => ?_
  refine .expect (by decide) faces fun u faces _ => ?_
  refine .still faces fun other u faces => .still faces fun _ u faces => ?_
  exact .bind (branch.nested n faces) fun _ u faces => others other u faces

lemma if_fused {c : Expr .expression} {t : Stmt .statement}
    (condition : ReadsExpr ws c (.mark .rightParen :: mid)) (branch : StatementFused mid t rest)
    (ends : nextKind rest ≠ some .kwElse) :
    StatementFused (.mark .kwIf :: .mark .leftParen :: ws) (.ifThen c t) rest := by
  intro n s faces
  unfold statementBody Stmt.build
  refine .skip faces (by simp [nextKind]) (.take (by decide) faces fun u faces _ => ?_)
  refine branch_fused condition branch n faces fun other u faces => ?_
  refine .still faces fun stop u faces => .still faces fun _ u faces => .still faces fun _ u faces => ?_
  exact .refuse faces ends (Fuses.same (land stop) faces)

lemma ifElse_fused {ws' : List Word} {c : Expr .expression} {t e : Stmt .statement}
    (condition : ReadsExpr ws c (.mark .rightParen :: mid))
    (branch : StatementFused mid t (.mark .kwElse :: ws')) (otherwise : StatementFused ws' e rest) :
    StatementFused (.mark .kwIf :: .mark .leftParen :: ws) (.ifElse c t e) rest := by
  intro n s faces
  unfold statementBody Stmt.build
  refine .skip faces (by simp [nextKind]) (.take (by decide) faces fun u faces _ => ?_)
  refine branch_fused condition branch n faces fun other u faces => ?_
  refine .still faces fun stop u faces => .still faces fun _ u faces => .still faces fun _ u faces => ?_
  refine .accept (by decide) faces fun u faces _ => ?_
  exact .bind (otherwise.nested n faces) fun _ u faces => Fuses.same (land stop) faces

lemma while_fused {c : Expr .expression} {body : Stmt .statement}
    (condition : ReadsExpr ws c (.mark .rightParen :: mid)) (inner : StatementFused mid body rest) :
    StatementFused (.mark .kwWhile :: .mark .leftParen :: ws) (.whileLoop c body) rest := by
  intro n s faces
  unfold statementBody Stmt.build
  refine .skip faces (by simp [nextKind]) (.skip faces (by simp [nextKind]) ?_)
  refine .skip faces (by simp [nextKind]) (.take (by decide) faces fun t faces _ => ?_)
  unfold whileStatement
  refine .getBoth (.expect (by decide) faces fun u faces _ => ?_)
  refine Fuses.bind (condition.fused (by simp) n u faces) fun _ u faces => ?_
  refine .expect (by decide) faces fun u faces _ => ?_
  refine .still faces fun exit u faces => .still faces fun _ u faces => ?_
  exact .bind (inner.nested n faces) fun _ u faces => .same _ faces

lemma forBody_fused {body : Stmt .statement} (inner : StatementFused ws body rest) (n : Nat)
    (loopVariable : Option (String × Nat)) (faces : s.Faces ws) :
    Fuses (forBody (level n) loopVariable)
      (forBody (bodyLevel (within n body.build)) loopVariable) s rest := by
  cases loopVariable with
  | none => exact inner.nested n faces
  | some place =>
    obtain ⟨x, slot⟩ := place
    unfold forBody
    refine .still faces fun _ t faces => .still faces fun _ t faces => .still faces fun _ t faces => ?_
    refine .still faces fun _ t faces => .still faces fun copy t faces => ?_
    exact .bind (inner.nested n faces) fun _ t faces => .same _ faces

lemma for_fused {ws₁ ws₂ ws₃ : List Word} {first : Initializer} {c step : Option (Expr .expression)}
    {body : Stmt .statement} (start : Initializer.Reads ws first ws₁)
    (condition : ReadsClause .semicolon ws₁ c ws₂) (increment : ReadsClause .rightParen ws₂ step ws₃)
    (inner : StatementFused ws₃ body rest) :
    StatementFused (.mark .kwFor :: .mark .leftParen :: ws) (.forLoop first c step body) rest := by
  intro n s faces
  unfold statementBody Stmt.build
  refine .skip faces (by simp [nextKind]) (.skip faces (by simp [nextKind]) ?_)
  refine .skip faces (by simp [nextKind]) (.skip faces (by simp [nextKind]) ?_)
  refine .take (by decide) faces fun t faces _ => ?_
  unfold forStatement
  refine .still faces fun _ t faces => ?_
  refine .expect (by decide) faces fun t faces _ => ?_
  refine .bind (start.fused n faces) fun loopVariable t faces => ?_
  refine .getBoth ?_
  refine .bind (condition_fused condition n faces) fun exit u faces => ?_
  refine .bind (increment_fused increment n t.body.size faces) fun back u faces => ?_
  exact .bind (forBody_fused inner n loopVariable faces) fun _ u faces => .same _ faces

/-- They go in step on the inside of a block. -/
lemma blockBody_fused {ds : Stmt .declarations}
    (inner : DeclarationsFused ws ds (.mark .rightBrace :: rest)) (n : Nat) (faces : s.Faces ws) :
    Fuses (blockBody (level n)) (do ds.build n; advance) s rest := by
  unfold blockBody
  refine .getLeft (.bind (inner n s.budget s faces faces.budget) fun _ u faces => ?_)
  exact .expectLast (by decide) faces

lemma block_fused {ds : Stmt .declarations} (inner : DeclarationsFused ws ds (.mark .rightBrace :: rest)) :
    StatementFused (.mark .leftBrace :: ws) (.block ds) rest := by
  intro n s faces
  unfold statementBody Stmt.build
  refine .skip faces (by simp [nextKind]) (.skip faces (by simp [nextKind]) ?_)
  refine .skip faces (by simp [nextKind]) (.skip faces (by simp [nextKind]) ?_)
  refine .skip faces (by simp [nextKind]) (.take (by decide) faces fun t faces _ => ?_)
  refine .still faces fun _ t faces => ?_
  have whole : Fuses (do blockBody (level n); endScope)
      ((do ds.build n; advance) >>= fun _ => endScope) t rest :=
    .bind (blockBody_fused inner n faces) fun _ u faces => .same _ faces
  exact whole

lemma DeclarationsFused.nested {ds : Stmt .declarations}
    (inner : DeclarationsFused ws ds (.mark .rightBrace :: rest)) (n : Nat) (faces : s.Faces ws) :
    Fuses (level n).block (within n fun n => do ds.build n; advance) s rest := by
  cases n with
  | zero => exact .refuseNesting faces.sane
  | succ n => exact blockBody_fused inner n faces

/-! ## Functions -/

lemma length_paramWords (params : List String) : params.length ≤ (paramWords params).length := by
  induction params using paramWords.induct <;> simp [paramWords] at *
  omega

lemma parameters_fused {ws : List Word} (params : List String) (nonempty : params ≠ []) :
    ∀ (count fuel : Nat) (s : State), s.Faces (paramWords params ++ ws) → params.length ≤ fuel →
      Fuses (parameters fuel count) (buildParameters params count) s (.mark .rightParen :: ws) := by
  induction params with
  | nil => exact absurd rfl nonempty
  | cons x params ih =>
    intro count fuel s faces enough
    cases fuel with
    | zero => exact absurd enough (Nat.not_succ_le_zero _)
    | succ fuel =>
      unfold parameters buildParameters
      refine .complains (.leftFirst (checkParameter count) rfl (.still faces fun _ t faces => ?_))
      refine .still faces fun _ t faces => ?_
      cases params with
      | nil =>
        refine parseVariable_fused faces fun constant t faces _ => .still faces fun _ t faces => ?_
        exact .skip faces (by simp [nextKind]) (Fuses.same (pure ()) faces)
      | cons y params =>
        refine parseVariable_fused faces fun constant t faces _ => .still faces fun _ t faces => ?_
        show Fuses _ (advance >>= fun _ => buildParameters (y :: params) (count + 1)) _ _
        refine .take (by decide) faces fun t faces _ => ?_
        exact ih (List.cons_ne_nil y params) (count + 1) fuel t faces (Nat.le_of_succ_le_succ enough)

/-- The words of the parameters are read together with the parenthesis after them. -/
lemma parameterList_fused {ws : List Word} (params : List String) {f f' : Unit → Compiling Unit}
    (careful : ∀ u, Careful (f u)) (careful' : ∀ u, Careful (f' u))
    (faces : s.Faces (paramWords params ++ ws)) (others : ∀ u, u.Faces ws → Fuses (f ()) (f' ()) u rest) :
    Fuses
      (check .rightParen >>= fun none =>
        if none = true then expect .rightParen "')' after parameters" >>= f
        else get >>= fun s => parameters s.budget 1 >>= fun _ =>
          expect .rightParen "')' after parameters" >>= f)
      (buildParameters params 1 >>= fun _ => advance >>= f') s rest := by
  have kind := faces.kind
  cases params with
  | nil =>
    obtain closes : s.current.kind = .rightParen := (Option.some.inj kind).symm
    refine .left (expect .rightParen "')' after parameters" >>= f) ?_
      (.expect (show TokenKind.rightParen ≠ .endOfInput from nofun) faces fun t faces _ => others t faces)
    show (if decide (s.current.kind = .rightParen) = true then _ else _ : Compiling Unit) s = _
    rw [if_pos (decide_eq_true closes)]
  | cons x params =>
    obtain ⟨w, starts⟩ : ∃ ws', paramWords (x :: params) ++ ws = .name x :: ws' := by
      cases params <;> exact ⟨_, rfl⟩
    have left : Careful (expect .rightParen "')' after parameters" >>= f) := follows_bind inferInstance careful
    have right : Careful (advance >>= f') := follows_bind inferInstance careful'
    have opens : s.current.kind ≠ .rightParen := by
      intro closes
      rw [starts, closes] at kind
      exact nomatch kind
    refine .left (parameters s.budget 1 >>= fun _ => expect .rightParen "')' after parameters" >>= f)
      ?_ (.bind (parameters_fused _ (List.cons_ne_nil x params) 1 s.budget s faces ?_) fun _ t faces =>
        .expect (by decide) faces fun t faces _ => others t faces)
    · show (if decide (s.current.kind = .rightParen) = true then _ else _ : Compiling Unit) s = _
      rw [if_neg (by simpa using opens)]
      rfl
    · have enough := faces.budget
      have := length_paramWords (x :: params)
      rw [List.length_append] at enough
      omega

lemma function_fused {x : String} {params : List String} {ds : Stmt .declarations} (kind : BodyKind)
    (inner : DeclarationsFused ws ds (.mark .rightBrace :: rest)) (n : Nat) (name : s.previous.lexeme = x)
    (faces : s.Faces (.mark .leftParen :: (paramWords params ++ .mark .leftBrace :: ws))) :
    Fuses (function (level n) kind)
      (buildFunction kind x params (within n fun n => do ds.build n; advance)) s rest := by
  unfold function buildFunction
  refine .getLeft ?_
  rw [name]
  refine .still faces fun _ t faces => .still faces fun _ t faces => ?_
  refine .expect (by decide) faces fun t faces _ => ?_
  refine parameterList_fused params (fun _ => inferInstance) (fun _ => inferInstance) faces
    fun t faces => ?_
  refine .expect (by decide) faces fun t faces _ => ?_
  exact .bind (inner.nested n faces) fun _ t faces => .same _ faces

/-! ## Declarations -/

lemma statement_fused {t : Stmt .statement} (reads : Stmt.Reads ws t rest)
    (inner : StatementFused ws t rest) : DeclarationFused ws (.statement t) rest := by
  intro n s faces
  obtain ⟨kind, next, other⟩ := reads.starts
  unfold declaration Stmt.build
  have others {kind'} (mem : kind' ∈ [TokenKind.kwClass, .kwFun, .kwVar, .rightBrace, .endOfInput]) :
      nextKind ws ≠ some kind' := by
    rintro same
    rw [next] at same
    exact other (Option.some.inj same ▸ mem)
  refine .skip faces (others (by simp)) (.skip faces (others (by simp)) ?_)
  exact .skip faces (others (by simp)) (.declared (inner.nested n faces))

lemma var_fused {x : String} {value : Option (Expr .expression)} (reads : ReadsBinding ws x value rest) :
    DeclarationFused (.mark .kwVar :: ws) (.var x value) rest := by
  intro n s faces
  unfold declaration Stmt.build
  refine .skip faces (by simp [nextKind]) (.skip faces (by simp [nextKind]) ?_)
  exact .take (by decide) faces fun t faces _ => .declared (reads.fused n faces)

lemma functionDeclaration_fused {x : String} {params : List String} {ds : Stmt .declarations}
    (inner : DeclarationsFused ws ds (.mark .rightBrace :: rest)) :
    DeclarationFused (.mark .kwFun :: .name x :: .mark .leftParen ::
      (paramWords params ++ .mark .leftBrace :: ws)) (.function x params ds) rest := by
  intro n s faces
  unfold declaration Stmt.build
  refine .skip faces (by simp [nextKind]) (.take (by decide) faces fun t faces _ => .declared ?_)
  unfold functionDeclaration
  refine parseVariable_fused faces fun constant t faces name => ?_
  refine .stay faces fun _ t faces same => ?_
  refine .bind (function_fused .function inner n (by rw [same, name]) faces) fun _ t faces => ?_
  exact .same _ faces

lemma superclass_fused (x : String) (sup : Option String) (faces : s.Faces (superclassWords sup ++ ws))
    (opens : nextKind ws = some .leftBrace) : Fuses (superclass x) (buildSuperclass x sup) s ws := by
  cases sup with
  | none =>
    unfold superclass buildSuperclass
    exact .skip faces (by simp [superclassWords, opens]) (Fuses.same (pure ()) faces)
  | some y =>
    unfold superclass buildSuperclass
    refine .take (by decide) faces fun t faces _ => .expect (by decide) faces fun t faces word => .getLeft ?_
    have name : t.previous.lexeme = y := lexeme_of_word word rfl
    dsimp only
    rw [name]
    refine .still faces fun _ t faces => .ite ?_ (.same _ faces)
    exact .still faces fun _ t faces => .same _ faces

lemma class_fused {x : String} {sup : Option String} {ms : Stmt .methods}
    (inner : MethodsFused ws ms (.mark .rightBrace :: rest)) :
    DeclarationFused (.mark .kwClass :: .name x :: (superclassWords sup ++ .mark .leftBrace :: ws))
      (.cls x sup ms) rest := by
  have declares : ∀ t : State, t.previous.lexeme = x → declareVariable t = declareName x t := by
    rintro t rfl
    rfl
  intro n s faces
  unfold declaration Stmt.build
  refine .take (by decide) faces fun t faces _ => .declared ?_
  unfold classDeclaration
  refine .expect (by decide) faces fun t faces word => .getLeft ?_
  have name : t.previous.lexeme = x := lexeme_of_word word rfl
  dsimp only
  rw [name]
  refine .stay faces fun constant u faces same => ?_
  refine .leftFirst _ (declares u (by rw [same, name])) (.still faces fun _ u faces => ?_)
  refine .still faces fun _ u faces => .still faces fun _ u faces => .still faces fun _ u faces => ?_
  refine .bind (superclass_fused x sup faces rfl) fun _ u faces => .still faces fun _ u faces => ?_
  refine .expect (by decide) faces fun u faces _ => .getLeft ?_
  refine .bind (inner n u.budget u faces faces.budget) fun _ u faces => ?_
  refine .expect (by decide) faces fun u faces _ => .still faces fun _ u faces => ?_
  exact Fuses.same leaveClass faces

/-! ## Sequences -/

lemma noDeclarations_fused (ends : EndsBlock ws) : DeclarationsFused ws .noDeclarations ws := by
  intro n fuel s faces enough
  have nonempty := faces.length
  cases fuel with
  | zero => omega
  | succ fuel => exact .ends faces ends (Fuses.same (pure ()) faces)

lemma declare_fused {d : Stmt .declaration} {ds : Stmt .declarations} (reads : Stmt.Reads ws d mid)
    (first : DeclarationFused ws d mid) (others : DeclarationsFused mid ds rest) :
    DeclarationsFused ws (.declare d ds) rest := by
  intro n fuel s faces enough
  have shorter := reads.length
  simp only [StmtSort.least] at shorter
  cases fuel with
  | zero => omega
  | succ fuel =>
    unfold declarations Stmt.build
    refine .goesOn faces reads.opens (.bind (first n s faces) fun _ t faces => ?_)
    exact others n fuel t faces (by omega)

lemma noMethods_fused (ends : EndsBlock ws) : MethodsFused ws .noMethods ws := by
  intro n fuel s faces enough
  have nonempty := faces.length
  cases fuel with
  | zero => omega
  | succ fuel => exact .ends faces ends (Fuses.same (pure ()) faces)

lemma method_fused {x : String} {params : List String} {ds : Stmt .declarations} {ms : Stmt .methods}
    (shorter : mid.length ≤ ws.length)
    (inner : DeclarationsFused ws ds (.mark .rightBrace :: mid)) (others : MethodsFused mid ms rest) :
    MethodsFused (.name x :: .mark .leftParen :: (paramWords params ++ .mark .leftBrace :: ws))
      (.method x params ds ms) rest := by
  intro n fuel s faces enough
  simp only [List.length_cons, List.length_append] at enough
  cases fuel with
  | zero => omega
  | succ fuel =>
    unfold methods Stmt.build
    refine .goesOn faces (by simp [EndsBlock, nextKind]) ?_
    unfold method
    simp only [bind_assoc]
    refine .expect (by decide) faces fun t faces word => .getLeft ?_
    have name : t.previous.lexeme = x := lexeme_of_word word rfl
    rw [name]
    refine .stay faces fun constant t faces same => ?_
    refine .bind (function_fused _ inner n (by rw [same, name]) faces) fun _ t faces => ?_
    exact .still faces fun _ t faces => others n fuel t faces (by omega)

/-- The compiler and building go in step on a phrase of this sort. -/
def Stmt.Fused : {s : StmtSort} → List Word → Stmt s → List Word → Prop
  | .statement, ws, t, rest => StatementFused ws t rest
  | .declaration, ws, t, rest => DeclarationFused ws t rest
  | .declarations, ws, t, rest => DeclarationsFused ws t rest
  | .methods, ws, t, rest => MethodsFused ws t rest

theorem Stmt.Reads.fused {s : StmtSort} {t : Stmt s} (h : t.Reads ws rest) : Stmt.Fused ws t rest := by
  induction h with
  | print reads => exact print_fused reads
  | expression reads => exact expression_fused reads
  | ret reads => exact return_fused reads
  | ifThen condition _ ends ih => exact if_fused condition ih ends
  | ifElse condition _ _ ih ih' => exact ifElse_fused condition ih ih'
  | whileLoop condition _ ih => exact while_fused condition ih
  | forLoop start condition increment _ ih => exact for_fused start condition increment ih
  | block _ ih => exact block_fused ih
  | statement reads ih => exact statement_fused reads ih
  | var reads => exact var_fused reads
  | function _ ih => exact functionDeclaration_fused ih
  | cls _ ih => exact class_fused ih
  | noDeclarations ends => exact noDeclarations_fused ends
  | declare reads _ ih ih' => exact declare_fused reads ih ih'
  | noMethods ends => exact noMethods_fused ends
  | method reads _ ih ih' => exact method_fused (Nat.le_of_succ_le reads.length) ih ih'

/-! ## Programs -/

/-- Two actions do the same, or both complain. -/
def Agree {α : Type} (act act' : Compiling α) (s : State) : Prop :=
  (act s).2.Complained ∧ (act' s).2.Complained ∨ act s = act' s

section Agree

variable {α β : Type} {act act' : Compiling α}

lemma Fuses.agree {f f' : α → Compiling β} [∀ a, Careful (f a)] [∀ a, Careful (f' a)]
    (first : Fuses act act' s mid) (second : ∀ a t, t.Faces mid → Agree (f a) (f' a) t) :
    Agree (act >>= f) (act' >>= f') s := by
  rcases first with ⟨left, right⟩ | ⟨same, faces⟩
  · exact Or.inl ⟨complained_after (f (act s).1) left, complained_after (f' (act' s).1) right⟩
  · show Agree (fun _ => f (act s).1 (act s).2) (fun _ => f' (act' s).1 (act' s).2) s
    rw [same]
    exact second (act' s).1 (act' s).2 faces

lemma Agree.bind (first : Agree act act' s) (f : α → Compiling β) [∀ a, Careful (f a)] :
    Agree (act >>= f) (act' >>= f) s := by
  rcases first with ⟨left, right⟩ | same
  · exact Or.inl ⟨complained_after (f (act s).1) left, complained_after (f (act' s).1) right⟩
  · refine Or.inr ?_
    show f (act s).1 (act s).2 = f (act' s).1 (act' s).2
    rw [same]

lemma Agree.left {first : Compiling α} (same : first s = act s) (h : Agree act act' s) :
    Agree first act' s := by
  unfold Agree
  rw [same]
  exact h

/-- A quiet run of one of two actions that agree is one of the other. -/
lemma Agree.runs {a : α} {s' : State} (h : Agree act act' s) : Runs act s a s' ↔ Runs act' s a s' := by
  rcases h with ⟨left, right⟩ | same
  · constructor <;> intro run
    · rw [run.eq] at left
      exact absurd run.clean.diagnostics left
    · rw [run.eq] at right
      exact absurd run.clean.diagnostics right
  · constructor <;> intro run
    · exact ⟨same ▸ run.eq, run.sane, run.clean⟩
    · exact ⟨same ▸ run.eq, run.sane, run.clean⟩

end Agree

lemma program_agrees (n fuel : Nat) {ds : Stmt .declarations} (h : Stmt.Reads ws ds rest)
    (last : nextKind rest = some .endOfInput) (faces : s.Faces ws) (enough : ws.length ≤ fuel) :
    Agree (program (level n) fuel) (do ds.build n; advance) s := by
  induction fuel generalizing ws s ds with
  | zero =>
    have nonempty := faces.length
    omega
  | succ fuel ih =>
    unfold program
    have next := faces.kind
    cases h with
    | noDeclarations =>
      rw [last] at next
      refine Or.inr ?_
      rw [accept_found (Option.some.inj next).symm]
      rfl
    | @declare ws d mid ds rest first others =>
      have here : s.current.kind ≠ .endOfInput := by
        intro final
        rw [final] at next
        exact first.opens (Or.inr next)
      have shorter := first.length
      simp only [StmtSort.least] at shorter
      refine .left (accept_missing here) ?_
      have whole : Agree (do declaration (level n); program (level n) fuel)
          (d.build n >>= fun _ => do ds.build n; advance) s :=
        Fuses.agree (first.fused n s faces) fun _ t faces => ih others faces (by omega)
      exact whole

/-- Where a source reads as a program, no token is malformed. -/
lemma ReadsProgram.proper {source : String} {ds : Stmt .declarations}
    (reads : ReadsProgram ((Token.scan source).toList.map Token.word) ds) :
    ∀ t ∈ (Token.scan source).toList, ∀ fault, t.kind ≠ .malformed fault := by
  obtain ⟨rest, tree, last⟩ := reads
  obtain ⟨used, split, derived⟩ := tree.derives
  obtain ⟨ts, final, all, kind, others, -⟩ := Token.scan_spec source
  rw [all] at split ⊢
  intro t there fault malformed
  -- The end of the source stands in what is left, so all the tokens before it were derived.
  have before : ∀ w ∈ used, w.kind ≠ .endOfInput := fun w there => (derived.isLexeme w there).1
  rw [List.map_append, List.map_singleton] at split
  rcases List.append_eq_append_iff.1 split with ⟨others', eq, eq'⟩ | ⟨others', eq, eq'⟩
  · rcases List.mem_append.1 there with there | there
    · refine (derived.isLexeme t.word ?_).2 fault malformed
      rw [eq]
      exact List.mem_append_left _ (List.mem_map_of_mem there)
    · rw [List.mem_singleton.1 there, kind] at malformed
      exact nomatch malformed
  · cases others' with
    | nil =>
      rw [List.append_nil] at eq
      rcases List.mem_append.1 there with there | there
      · refine (derived.isLexeme t.word ?_).2 fault malformed
        rw [← eq]
        exact List.mem_map_of_mem there
      · rw [List.mem_singleton.1 there, kind] at malformed
        exact nomatch malformed
    | cons w others' =>
      rw [eq'] at last
      have final : w.kind = .endOfInput := Option.some.inj last
      have mem : w ∈ ts.map Token.word := by
        rw [eq]
        exact List.mem_append_right _ List.mem_cons_self
      obtain ⟨t', there', rfl⟩ := List.mem_map.1 mem
      exact absurd final (others t' there')

/-- Before a program its words are ahead. -/
lemma start_faces {source : String} {ds : Stmt .declarations}
    (reads : ReadsProgram ((Token.scan source).toList.map Token.word) ds) (strings : StringTable)
    (serial : Nat) :
    (advance (State.start (Token.scan source) strings serial)).2.Faces
      ((Token.scan source).toList.map Token.word) := by
  have proper := reads.proper
  have fed := fed_start source strings serial
  have sane : (advance (State.start (Token.scan source) strings serial)).2.Sane :=
    (worsens advance _).sane fun panicking => absurd panicking Bool.false_ne_true
  cases tokens : (Token.scan source).toList with
  | nil =>
    obtain ⟨ts, last, all, -⟩ := Token.scan_spec source
    rw [tokens] at all
    exact absurd all.symm (List.append_ne_nil_of_right_ne_nil _ (List.cons_ne_nil _ _))
  | cons t ts =>
    rw [tokens] at proper
    have state : (advance (State.start (Token.scan source) strings serial)).2 =
        { State.start (Token.scan source) strings serial with current := t, rest := ts } := by
      show State.settle _ (Token.scan source).toList = _
      rw [tokens]
      unfold State.settle
      split
      · next fault malformed => exact absurd malformed (proper t List.mem_cons_self fault)
      · rfl
    rw [state] at fed sane ⊢
    exact ⟨rfl, fed, proper, sane⟩

/-- The compiler and building do the same for a whole source, or both complain. -/
theorem script_agrees {source : String} {ds : Stmt .declarations}
    (reads : ReadsProgram ((Token.scan source).toList.map Token.word) ds) (strings : StringTable)
    (serial : Nat) :
    Agree script ds.buildScript (State.start (Token.scan source) strings serial) := by
  have faces := start_faces reads strings serial
  obtain ⟨rest, tree, last⟩ := reads
  generalize State.start (Token.scan source) strings serial = start at faces ⊢
  have whole := program_agrees maxNesting (advance start).2.budget tree last faces faces.budget
  exact whole.bind fun _ => do return (← closeBody).1

end Lox.Syntax

namespace Lox

open Compile Syntax

/-- A source that reads as a program compiles if and only if the program can be built without complaints, and
then to the same function. -/
theorem compile_builds {source : String} {ds : Stmt .declarations}
    (reads : ReadsProgram ((Token.scan source).toList.map Token.word) ds) (strings : StringTable) (serial : Nat)
    {p : Prototype} :
    (compile source strings serial).outcome = .ok p ↔
      ∃ s, Runs ds.buildScript (State.start (Token.scan source) strings serial) p s :=
  compile_runs.trans (exists_congr fun _ => (script_agrees reads strings serial).runs)

end Lox
