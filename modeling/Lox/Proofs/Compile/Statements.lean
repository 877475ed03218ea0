import Lox.Proofs.Compile.Functions

/-!
# The code of statements

Reading a statement without a complaint reads a tree and emits its code (`statementBody_spec`).
The jumps of a loop are emitted before their distances are known, so the code of each part is
followed up to the place where the jump lands.
-/

namespace Lox.Compile

open Syntax

variable {s s' : State} {inner : Level}

/-! ## Passages -/

/-- A phrase is read after its first word. -/
lemma Passage.after {σ : StmtSort} {top : Bool} {ws rest : List Word} {s₀ : State} {t : Stmt σ}
    {code : List Instr} {k : Nat} (h : Passage top ws rest s s' t code k) (moves : Moves s₀ s) :
    Passage top ws rest s₀ s' t code k where
  reads := h.reads
  progress := moves.progress.trans h.progress
  emits := h.emits

/-! ## Simple statements -/

lemma expression_spec (reads : inner.ReadsExpressions) {u : Unit}
    (run : Runs inner.expression s u s') (sound : s.Sound) :
    ∃ e code, Phrase (.operators .assignment) s.words s s' e code :=
  reads run sound

variable [inner.Careful]

theorem printStatement_spec (reads : inner.Reads) {u : Unit}
    (run : Runs (printStatement inner) s u s') (sound : s.Sound) :
    ∃ (t : Stmt .statement) (code : List Instr),
      ∀ top, Passage top (.mark .kwPrint :: s.words) s'.words s s' t code 0 := by
  unfold printStatement at run
  rw [runs_bind] at run
  obtain ⟨u₁, s₁, first, run⟩ := run
  obtain ⟨e, code, phrase⟩ := expression_spec reads.expressions first sound
  obtain ⟨semicolon, s₂, moves, run⟩ := runs_expect run phrase.progress.sound (by decide)
  obtain ⟨progress, tokens⟩ := emit_spec run moves.progress.sound
  refine ⟨.print e, code ++ [Instr.print], fun top => ⟨?_, ?_, ?_⟩⟩
  · have reading := phrase.reads
    rw [moves.mark semicolon rfl] at reading
    rw [tokens.words]
    exact .print reading
  · exact (phrase.progress.andMoves moves).trans progress
  · intro Γ L later
    have emitted := phrase.emits Γ L (moves.progress.future (progress.future later))
    refine ⟨_, .print emitted, ?_⟩
    rw [instrs_framed, instrs_under]

theorem expressionStatement_spec (reads : inner.Reads) {u : Unit}
    (run : Runs (expressionStatement inner) s u s') (sound : s.Sound) :
    ∃ (e : Expr .expression) (code : List Instr),
      ReadsExpr s.words e (.mark .semicolon :: s'.words) ∧ Progress s s' (code ++ [.pop]) 0 ∧
        ∀ Γ L, Future s' Γ L → e.Emits Γ L code := by
  unfold expressionStatement at run
  rw [runs_bind] at run
  obtain ⟨u₁, s₁, first, run⟩ := run
  obtain ⟨e, code, phrase⟩ := expression_spec reads.expressions first sound
  obtain ⟨semicolon, s₂, moves, run⟩ := runs_expect run phrase.progress.sound (by decide)
  obtain ⟨progress, tokens⟩ := emit_spec run moves.progress.sound
  refine ⟨e, code, ?_, (phrase.progress.andMoves moves).trans progress, ?_⟩
  · have reading := phrase.reads
    rw [moves.mark semicolon rfl] at reading
    rw [tokens.words]
    exact reading
  · exact fun Γ L later => phrase.emits Γ L (moves.progress.future (progress.future later))

theorem returnStatement_spec (reads : inner.Reads) {u : Unit}
    (run : Runs (returnStatement inner) s u s') (sound : s.Sound) :
    ∃ (t : Stmt .statement) (code : List Instr),
      ∀ top, Passage top (.mark .kwReturn :: s.words) s'.words s s' t code 0 := by
  unfold returnStatement at run
  rw [runs_get_bind] at run
  rcases runs_ite.1 run with ⟨-, run⟩ | ⟨inside, run⟩
  · rw [runs_bind] at run
    obtain ⟨u₁, s₁, complains, -⟩ := run
    exact absurd complains not_runs_complain
  · rcases runs_accept run sound (by decide) with ⟨semicolon, s₁, moves, run⟩ | ⟨-, run⟩
    · simp only [↓reduceIte] at run
      obtain ⟨progress, tokens⟩ := emitReturn_spec run moves.progress.sound
      rw [moves.progress.kind] at progress
      refine ⟨.ret none, returnCode s.body.kind, fun top => ⟨?_, moves.progress.trans progress, ?_⟩⟩
      · rw [moves.mark semicolon rfl, tokens.words]
        exact .ret .none
      · intro Γ L later
        have before := moves.progress.future (progress.future later)
        have inside' : Γ.kind ≠ .script := by
          rw [before.kind]
          exact inside
        refine ⟨_, .retNone inside', ?_⟩
        rw [instrs_framed, instrs_under, before.kind]
    · simp only [Bool.false_eq_true, ↓reduceIte] at run
      rw [runs_get_bind] at run
      rcases runs_ite.1 run with ⟨-, run⟩ | ⟨plain, run⟩
      · rw [runs_bind] at run
        obtain ⟨u₁, s₁, complains, -⟩ := run
        exact absurd complains not_runs_complain
      · rw [runs_bind] at run
        obtain ⟨u₁, s₁, first, run⟩ := run
        obtain ⟨e, code, phrase⟩ := expression_spec reads.expressions first sound
        obtain ⟨semicolon, s₂, moves, run⟩ := runs_expect run phrase.progress.sound (by decide)
        obtain ⟨progress, tokens⟩ := emit_spec run moves.progress.sound
        have whole := (phrase.progress.andMoves moves).trans progress
        refine ⟨.ret (some e), code ++ [Instr.ret], fun top => ⟨?_, whole, ?_⟩⟩
        · have reading := phrase.reads
          rw [moves.mark semicolon rfl] at reading
          rw [tokens.words]
          exact .ret (.some reading)
        · intro Γ L later
          have emitted := phrase.emits Γ L (moves.progress.future (progress.future later))
          have kind := (whole.future later).kind
          have inside' : Γ.kind ≠ .script := by
            rw [kind]
            exact inside
          have plain' : Γ.kind ≠ .initializer := by
            rw [kind]
            exact plain
          refine ⟨_, .retSome inside' plain' emitted, ?_⟩
          rw [instrs_framed, instrs_under]

/-! ## Conditionals -/

/-- A condition in parentheses. -/
lemma condition_spec (reads : inner.Reads) {α : Type} {a : α} {what what' : String}
    {f : Unit → Compiling α} [careful : Careful (f ())]
    (run : Runs (expect .leftParen what >>= fun _ => inner.expression >>= fun _ =>
      expect .rightParen what' >>= f) s a s') (sound : s.Sound) :
    ∃ (c : Expr .expression) (code : List Instr) (ws : List Word) (s₁ : State),
      s.words = .mark .leftParen :: ws ∧ ReadsExpr ws c (.mark .rightParen :: s₁.words) ∧
        Progress s s₁ code 0 ∧ (∀ Γ L, Future s₁ Γ L → c.Emits Γ L code) ∧ Runs (f ()) s₁ a s' := by
  have all : ∀ u, Careful (f u) := fun _ => careful
  obtain ⟨left, s₁, moves₁, run⟩ := runs_expect run sound (by decide)
  rw [runs_bind] at run
  obtain ⟨u₂, s₂, first, run⟩ := run
  obtain ⟨c, code, phrase⟩ := expression_spec reads.expressions first moves₁.progress.sound
  obtain ⟨right, s₃, moves₃, run⟩ := runs_expect run phrase.progress.sound (by decide)
  have reading := phrase.reads
  rw [moves₃.mark right rfl] at reading
  refine ⟨c, code, s₁.words, s₃, moves₁.mark left rfl, reading,
    moves₁.progress.trans (phrase.progress.andMoves moves₃), ?_, run⟩
  exact fun Γ L later => phrase.emits Γ L (moves₃.progress.future later)

theorem ifStatement_spec (reads : inner.Reads) {u : Unit}
    (run : Runs (ifStatement inner) s u s') (sound : s.Sound) (settled : s.body.Settled) :
    ∃ (t : Stmt .statement) (code : List Instr),
      ∀ top, Passage top (.mark .kwIf :: s.words) s'.words s s' t code 0 := by
  unfold ifStatement at run
  obtain ⟨c, cond, ws, s₁, opening, condition, progress₁, emits₁, run⟩ :=
    condition_spec reads run sound
  rw [runs_bind] at run
  obtain ⟨site, s₂, jumps₂, run⟩ := run
  obtain ⟨rfl, progress₂, tokens₂⟩ := emitJump_spec jumps₂ progress₁.sound fun _ => rfl
  rw [runs_bind] at run
  obtain ⟨u₃, s₃, pops₃, run⟩ := run
  obtain ⟨progress₃, tokens₃⟩ := emit_spec pops₃ progress₂.sound
  have entered := progress₁.trans (progress₂.trans progress₃)
  rw [runs_bind] at run
  obtain ⟨u₄, s₄, branch, run⟩ := run
  obtain ⟨t, then_, passage₄⟩ := reads.statement branch entered.sound (entered.settled settled)
  rw [runs_bind] at run
  obtain ⟨site', s₅, jumps₅, run⟩ := run
  obtain ⟨rfl, progress₅, tokens₅⟩ := emitJump_spec jumps₅ (passage₄ false).progress.sound fun _ => rfl
  rw [runs_bind] at run
  obtain ⟨u₆, s₆, lands₆, run⟩ := run
  have waiting : Progress s s₅ (cond ++ Instr.jumpIfFalse 0xffff ::
    (Instr.pop :: (then_ ++ [Instr.jump 0xffff]))) 0 := by
    have all := entered.trans ((passage₄ false).progress.trans progress₅)
    rw [List.append_assoc] at all
    exact all
  rw [progress₁.instrs] at lands₆
  obtain ⟨progress₆, fits₆, tokens₆, future₆⟩ := waiting.land .jumpIfFalse lands₆
  have size₆ : codeSize (.pop :: (then_ ++ [Instr.jump 0xffff])) = codeSize then_ + 4 := by
    simp only [codeSize_cons, codeSize_append, codeSize_nil, Instr.size]
    omega
  rw [size₆] at progress₆ fits₆
  have site : siteAfter s₄.body.instrs = siteAfter (s.body.instrs ++
      (cond ++ .jumpIfFalse (UInt16.ofNat (codeSize then_ + 4)) :: .pop :: then_)) := by
    rw [(passage₄ false).progress.instrs, entered.instrs]
    simp only [siteAfter, List.length_append, List.length_cons, List.length_nil, codeSize_append,
      codeSize_cons, codeSize_nil, Instr.size]
    congr 1 <;> omega
  rw [site, runs_bind] at run
  obtain ⟨u₇, s₇, pops₇, run⟩ := run
  obtain ⟨progress₇, tokens₇⟩ := emit_spec pops₇ progress₆.sound
  have branched : Progress s s₇
      ((cond ++ .jumpIfFalse (UInt16.ofNat (codeSize then_ + 4)) :: .pop :: then_) ++
        Instr.jump 0xffff :: [Instr.pop]) 0 := by
    have all := progress₆.trans progress₇
    simp only [List.append_assoc, List.cons_append, List.nil_append] at all ⊢
    exact all
  have words₇ : s₇.words = s₄.words := by
    rw [tokens₇.words, tokens₆.words, tokens₅.words]
  have words₃ : s₃.words = s₁.words := by rw [tokens₃.words, tokens₂.words]
  -- What comes of the state before the branches are joined comes of the states before it.
  have condition' : ∀ Γ L, Future s₇ Γ L → c.Emits Γ L cond ∧ ∀ top, ∃ items,
      t.Emits Γ top L items L ∧ instrs items = then_ := by
    intro Γ L later
    have before₄ := progress₅.future (future₆ Γ L (progress₇.future later))
    have before₃ := (passage₄ false).progress.future before₄
    exact ⟨emits₁ Γ L (progress₂.future (progress₃.future before₃)), fun top =>
      (passage₄ top).emits Γ L before₄⟩
  rcases runs_accept run progress₇.sound (by decide) with ⟨else_, s₈, moves₈, run⟩ | ⟨ends, run⟩
  · simp only [↓reduceIte] at run
    rw [runs_bind] at run
    obtain ⟨u₉, s₉, otherwise, run⟩ := run
    have settled₈ := moves₈.progress.settled (branched.settled settled)
    obtain ⟨e, other, passage₉⟩ := reads.statement otherwise moves₈.progress.sound settled₈
    have waiting₉ : Progress s s₉
        ((cond ++ .jumpIfFalse (UInt16.ofNat (codeSize then_ + 4)) :: .pop :: then_) ++
          .jump 0xffff :: (.pop :: other)) 0 := by
      have all := (branched.andMoves moves₈).trans (passage₉ false).progress
      simp only [List.append_assoc, List.cons_append, List.nil_append] at all ⊢
      exact all
    obtain ⟨progress, fits, tokens, future⟩ := waiting₉.land .jump run
    have size₉ : codeSize (.pop :: other) = codeSize other + 1 := by
      rw [codeSize_cons, Instr.size]
      omega
    rw [size₉] at progress fits
    refine ⟨.ifElse c t e, _, fun top => ⟨?_, progress, ?_⟩⟩
    · have reading := (passage₄ top).reads
      rw [words₃, ← words₇, moves₈.mark else_ rfl] at reading
      rw [opening, tokens.words]
      exact .ifElse condition reading (passage₉ top).reads
    · intro Γ L later
      have before₉ := future Γ L later
      have before₇ := moves₈.progress.future ((passage₉ false).progress.future before₉)
      obtain ⟨emitted, branch⟩ := condition' Γ L before₇
      obtain ⟨items, emitted', rfl⟩ := branch false
      obtain ⟨others, emitted'', rfl⟩ := (passage₉ false).emits Γ L before₉
      refine ⟨_, .ifElse emitted emitted' emitted'' fits₆ fits, ?_⟩
      simp only [instrs_framed, instrs_append, instrs_under, List.append_assoc, List.cons_append,
        List.nil_append]
  · simp only [Bool.false_eq_true, ↓reduceIte] at run
    obtain ⟨progress, fits, tokens, future⟩ := branched.land .jump run
    refine ⟨.ifThen c t, _, fun top => ⟨?_, progress, ?_⟩⟩
    · have reading := (passage₄ top).reads
      rw [words₃, ← words₇] at reading
      rw [opening, tokens.words]
      exact .ifThen condition reading (not_next ends)
    · intro Γ L later
      obtain ⟨emitted, branch⟩ := condition' Γ L (future Γ L later)
      obtain ⟨items, emitted', rfl⟩ := branch false
      refine ⟨_, .ifThen emitted emitted' fits₆, ?_⟩
      simp only [instrs_framed, instrs_append, instrs_under, List.append_assoc, List.cons_append,
        List.nil_append]
      rfl

/-! ## While loops -/

theorem whileStatement_spec (reads : inner.Reads) {u : Unit}
    (run : Runs (whileStatement inner) s u s') (sound : s.Sound) (settled : s.body.Settled) :
    ∃ (t : Stmt .statement) (code : List Instr),
      ∀ top, Passage top (.mark .kwWhile :: s.words) s'.words s s' t code 0 := by
  unfold whileStatement at run
  rw [runs_get_bind, sound.body.size] at run
  obtain ⟨c, cond, ws, s₁, opening, condition, progress₁, emits₁, run⟩ :=
    condition_spec reads run sound
  rw [runs_bind] at run
  obtain ⟨site, s₂, jumps₂, run⟩ := run
  obtain ⟨rfl, progress₂, tokens₂⟩ := emitJump_spec jumps₂ progress₁.sound fun _ => rfl
  rw [runs_bind] at run
  obtain ⟨u₃, s₃, pops₃, run⟩ := run
  obtain ⟨progress₃, tokens₃⟩ := emit_spec pops₃ progress₂.sound
  have entered := progress₁.trans (progress₂.trans progress₃)
  rw [runs_bind] at run
  obtain ⟨u₄, s₄, statement, run⟩ := run
  obtain ⟨body, code, passage⟩ := reads.statement statement entered.sound (entered.settled settled)
  rw [runs_bind] at run
  obtain ⟨u₅, s₅, loops, run⟩ := run
  have turned := entered.trans (passage false).progress
  obtain ⟨progress₅, back, tokens₅⟩ := emitLoop_spec loops turned.sound
  have distance : codeSize s₄.body.instrs + 3 - codeSize s.body.instrs =
      backDistance (some cond) none (codeSize code) := by
    rw [turned.instrs]
    simp only [codeSize_append, codeSize_cons, codeSize_nil, Instr.size, backDistance,
      conditionSize]
    omega
  rw [distance] at progress₅ back
  have waiting : Progress s s₅ (cond ++ Instr.jumpIfFalse 0xffff ::
      (Instr.pop :: (code ++ [Instr.loop (UInt16.ofNat (backDistance (some cond) none (codeSize code)))]))) 0 := by
    have all := turned.trans progress₅
    simp only [List.append_assoc, List.cons_append, List.nil_append] at all ⊢
    exact all
  rw [runs_bind] at run
  obtain ⟨u₆, s₆, lands, run⟩ := run
  rw [progress₁.instrs] at lands
  obtain ⟨progress₆, exit, tokens₆, future₆⟩ := waiting.land .jumpIfFalse lands
  have size : codeSize (.pop :: (code ++
      [Instr.loop (UInt16.ofNat (backDistance (some cond) none (codeSize code)))])) =
        1 + incrementSize none + codeSize code + 3 := by
    simp only [codeSize_cons, codeSize_append, codeSize_nil, Instr.size, incrementSize]
    omega
  rw [size] at progress₆ exit
  obtain ⟨progress₇, tokens₇⟩ := emit_spec run progress₆.sound
  refine ⟨.whileLoop c body, _, fun top => ⟨?_, progress₆.trans progress₇, ?_⟩⟩
  · have reading := (passage top).reads
    have words₃ : s₃.words = s₁.words := by rw [tokens₃.words, tokens₂.words]
    rw [words₃] at reading
    rw [opening, tokens₇.words, tokens₆.words, tokens₅.words]
    exact .whileLoop condition reading
  · intro Γ L later
    have before₄ := progress₅.future (future₆ Γ L (progress₇.future later))
    have before₃ := (passage false).progress.future before₄
    obtain ⟨items, emitted, rfl⟩ := (passage false).emits Γ L before₄
    have fits : LoopFits (some cond) none (itemsSize items) :=
      { exit := fun _ => exit
        increment := by rintro is ⟨⟩
        back := back }
    refine ⟨_, .whileLoop (emits₁ Γ L (progress₂.future (progress₃.future before₃))) emitted fits,
      ?_⟩
    simp only [instrs_framed, loopItems, conditionCode, incrementCode, exitCode, instrs_append,
      instrs_under, List.append_assoc, List.cons_append, List.nil_append, itemsSize]

/-! ## Variables -/

lemma Moves.places (h : Moves s s') : s'.places = s.places := by
  rw [State.places, State.places, h.body]

lemma Moves.atTop (h : Moves s s') : s'.atTop = s.atTop := by
  rw [State.atTop, State.atTop, h.body]

theorem variableDeclaration_spec (reads : inner.Reads) {u : Unit}
    (run : Runs (variableDeclaration inner) s u s') (sound : s.Sound) (settled : s.body.Settled) :
    ∃ (x : String) (value : Option (Expr .expression)) (code define : List Instr),
      ReadsBinding s.words x value s'.words ∧ Progress s s' (code ++ define) s.places ∧
        ∀ Γ L, Future s' Γ L → ValueEmits Γ (L.drop s.places) value code ∧
          Binds Γ (L.drop s.places) x s.atTop define L := by
  unfold variableDeclaration at run
  rw [runs_bind] at run
  obtain ⟨index, s₂, parses, run⟩ := run
  obtain ⟨identifier, s₁, moves₁, declares, tokens₂⟩ := parseVariable_spec parses sound settled
  have sound₁ := moves₁.progress.sound
  have settled₁ := moves₁.progress.settled settled
  have words : s.words = .name s₁.previous.lexeme :: s₂.words := by
    rw [tokens₂.words]
    exact moves₁.name identifier
  rcases runs_accept run declares.sound (by decide) with ⟨equal, s₃, moves₃, run⟩ | ⟨-, run⟩
  · simp only [↓reduceIte] at run
    rw [runs_bind] at run
    obtain ⟨u₄, s₄, first, run⟩ := run
    obtain ⟨e, code, phrase⟩ := expression_spec reads.expressions first moves₃.progress.sound
    obtain ⟨semicolon, s₅, moves₅, run⟩ := runs_expect run phrase.progress.sound (by decide)
    have middle : Progress s₂ s₅ code 0 := (moves₃.progress.trans phrase.progress).andMoves moves₅
    obtain ⟨define, progress, tokens, binds⟩ := declares.define middle sound₁ settled₁ run
    have whole := moves₁.progress.trans progress
    rw [moves₁.places] at whole binds
    rw [moves₁.atTop] at binds
    refine ⟨s₁.previous.lexeme, some e, code, define, ?_, whole, ?_⟩
    · have reading := phrase.reads
      rw [moves₅.mark semicolon rfl] at reading
      rw [words, moves₃.mark equal rfl, tokens.words]
      exact .some reading
    · intro Γ L later
      obtain ⟨before, bound⟩ := binds Γ L later
      exact ⟨.some (phrase.emits Γ _ (moves₅.progress.future before)), bound⟩
  · simp only [Bool.false_eq_true, ↓reduceIte] at run
    rw [runs_bind] at run
    obtain ⟨u₄, s₄, pushes, run⟩ := run
    obtain ⟨progress₄, tokens₄⟩ := emit_spec pushes declares.sound
    obtain ⟨semicolon, s₅, moves₅, run⟩ := runs_expect run progress₄.sound (by decide)
    obtain ⟨define, progress, tokens, binds⟩ :=
      declares.define (progress₄.andMoves moves₅) sound₁ settled₁ run
    have whole := moves₁.progress.trans progress
    rw [moves₁.places] at whole binds
    rw [moves₁.atTop] at binds
    refine ⟨s₁.previous.lexeme, none, [.pushNil], define, ?_, whole, ?_⟩
    · rw [words, ← tokens₄.words, moves₅.mark semicolon rfl, tokens.words]
      exact .none
    · intro Γ L later
      exact ⟨.none, (binds Γ L later).2⟩

lemma binds_inner {Γ : Context} {L L' : List Local} {x : String} {define : List Instr}
    (h : Binds Γ L x false define L') : define = [] ∧ ∃ v, v.name = x ∧ L' = v :: L := by
  cases h with
  | slot named _ => exact ⟨rfl, _, named, rfl⟩

/-! ## For loops -/

/-- The first clause has been read: it is an expression or nothing, or it declares the loop
variable. -/
inductive FirstClause (s s' : State) : Option (String × Nat) → Initializer → List Instr → Nat →
    Prop where
  | plain {first code} (progress : Progress s s' code 0)
      (emits : ∀ Γ L, Future s' Γ L → first.Emits Γ L code) : FirstClause s s' none first code 0
  | declares {x value code} (progress : Progress s s' code 1)
      (emits : ∀ Γ L, Future s' Γ L →
        ValueEmits Γ (L.drop 1) value code ∧ ∃ v, v.name = x ∧ L = v :: L.drop 1) :
      FirstClause s s' (some (x, s.body.locals.length)) (.var x value) code 1

theorem forInitializer_spec (reads : inner.Reads) {loopVariable : Option (String × Nat)}
    (run : Runs (forInitializer inner) s loopVariable s') (sound : s.Sound)
    (settled : s.body.Settled) (inside : s.body.depth ≠ 0) :
    ∃ (first : Initializer) (code : List Instr) (k : Nat), first.Reads s.words s'.words ∧
      FirstClause s s' loopVariable first code k := by
  unfold forInitializer at run
  rcases runs_accept run sound (by decide) with ⟨semicolon, s₁, moves, run⟩ | ⟨-, run⟩
  · simp only [↓reduceIte] at run
    obtain ⟨rfl, rfl, -⟩ := runs_pure.1 run
    refine ⟨.none, [], 0, ?_, .plain moves.progress fun Γ L _ => .none⟩
    rw [moves.mark semicolon rfl]
    exact .none
  · simp only [Bool.false_eq_true, ↓reduceIte] at run
    rcases runs_accept run sound (by decide) with ⟨var, s₁, moves, run⟩ | ⟨-, run⟩
    · simp only [↓reduceIte] at run
      rw [runs_bind] at run
      obtain ⟨u₂, s₂, declares, run⟩ := run
      have inside₁ : s₁.body.depth ≠ 0 := by
        rw [moves.body]
        exact inside
      obtain ⟨x, value, code, define, reading, progress, emits⟩ := variableDeclaration_spec reads
        declares moves.progress.sound (moves.progress.settled settled)
      rw [State.places_inner inside₁] at progress emits
      rw [State.atTop_inner inside₁] at emits
      obtain ⟨rfl, v, named, locals⟩ :=
        binds_inner (emits _ _ (.now progress.settled_after)).2
      rw [List.append_nil] at progress
      rw [runs_get_bind] at run
      have length : s₂.body.locals.length = s.body.locals.length + 1 := by
        rw [progress.length, moves.body]
      have result : loopVariable = some (x, s.body.locals.length) ∧ s₂ = s' := by
        rw [locals, List.length_cons] at length
        rw [locals] at run
        obtain ⟨rfl, rfl, -⟩ := runs_pure.1 run
        show some (v.name, (s₂.body.locals.drop 1).length) = _ ∧ _
        rw [named, Nat.succ.inj length]
        exact ⟨rfl, rfl⟩
      obtain ⟨rfl, rfl⟩ := result
      refine ⟨.var x value, code, 1, ?_, .declares (moves.progress.trans progress) ?_⟩
      · rw [moves.mark var rfl]
        exact .var reading
      · intro Γ L later
        obtain ⟨emitted, binds⟩ := emits Γ L later
        exact ⟨emitted, (binds_inner binds).2⟩
    · simp only [Bool.false_eq_true, ↓reduceIte] at run
      rw [runs_bind] at run
      obtain ⟨u₁, s₁, first, run⟩ := run
      obtain ⟨rfl, rfl, -⟩ := runs_pure.1 run
      obtain ⟨e, code, reading, progress, emits⟩ := expressionStatement_spec reads first sound
      exact ⟨.expression e, _, 0, .expression reading, .plain progress fun Γ L later =>
        .expression (emits Γ L later)⟩

/-- The condition of a loop whose jump has no distance yet. -/
def waitingCondition : Option (List Instr) → List Instr
  | none => []
  | some is => is ++ [.jumpIfFalse 0xffff, .pop]

lemma codeSize_waitingCondition (cond : Option (List Instr)) :
    codeSize (waitingCondition cond) = conditionSize cond := by
  cases cond with
  | none => rfl
  | some is =>
    simp only [waitingCondition, conditionSize, codeSize_append, codeSize_cons, codeSize_nil,
      Instr.size]

theorem forCondition_spec (reads : inner.Reads) {exit : Option JumpSite}
    (run : Runs (forCondition inner) s exit s') (sound : s.Sound) :
    ∃ (c : Option (Expr .expression)) (cond : Option (List Instr)),
      ReadsClause .semicolon s.words c s'.words ∧ Progress s s' (waitingCondition cond) 0 ∧
        (∀ Γ L, Future s' Γ L → ClauseEmits Γ L c cond) ∧
        exit = cond.map fun is => siteAfter (s.body.instrs ++ is) := by
  unfold forCondition at run
  rcases runs_accept run sound (by decide) with ⟨semicolon, s₁, moves, run⟩ | ⟨-, run⟩
  · simp only [↓reduceIte] at run
    obtain ⟨rfl, rfl, -⟩ := runs_pure.1 run
    refine ⟨none, none, ?_, moves.progress, fun Γ L _ => .none, rfl⟩
    rw [moves.mark semicolon rfl]
    exact .none
  · simp only [Bool.false_eq_true, ↓reduceIte] at run
    rw [runs_bind] at run
    obtain ⟨u₁, s₁, first, run⟩ := run
    obtain ⟨e, code, phrase⟩ := expression_spec reads.expressions first sound
    obtain ⟨semicolon, s₂, moves₂, run⟩ := runs_expect run phrase.progress.sound (by decide)
    rw [runs_bind] at run
    obtain ⟨site, s₃, jumps, run⟩ := run
    obtain ⟨rfl, progress₃, tokens₃⟩ := emitJump_spec jumps moves₂.progress.sound fun _ => rfl
    rw [runs_bind] at run
    obtain ⟨u₄, s₄, pops, run⟩ := run
    obtain ⟨progress₄, tokens₄⟩ := emit_spec pops progress₃.sound
    obtain ⟨rfl, rfl, -⟩ := runs_pure.1 run
    have entered := phrase.progress.andMoves moves₂
    refine ⟨some e, some code, ?_, entered.trans (progress₃.trans progress₄), ?_, ?_⟩
    · have reading := phrase.reads
      rw [moves₂.mark semicolon rfl] at reading
      rw [tokens₄.words, tokens₃.words]
      exact .some reading
    · exact fun Γ L later => .some (phrase.emits Γ L
        (moves₂.progress.future (progress₃.future (progress₄.future later))))
    · rw [Option.map_some, entered.instrs]

theorem forIncrement_spec (reads : inner.Reads) {start back : Nat} {cond : Option (List Instr)}
    (run : Runs (forIncrement inner start) s back s') (sound : s.Sound)
    (before : codeSize s.body.instrs = start + conditionSize cond) :
    ∃ (e : Option (Expr .expression)) (step : Option (List Instr)),
      ReadsClause .rightParen s.words e s'.words ∧ Progress s s' (incrementCode cond step) 0 ∧
        (∀ Γ L, Future s' Γ L → ClauseEmits Γ L e step) ∧
        (∀ is ∈ step, conditionSize cond + codeSize is + 7 ≤ maxDistance) ∧
        ∀ size, start + conditionSize cond + incrementSize step + size + 3 - back =
          backDistance cond step size := by
  unfold forIncrement at run
  rcases runs_accept run sound (by decide) with ⟨right, s₁, moves, run⟩ | ⟨-, run⟩
  · simp only [↓reduceIte] at run
    obtain ⟨rfl, rfl, -⟩ := runs_pure.1 run
    refine ⟨none, none, ?_, moves.progress, fun Γ L _ => .none, fun _ given => (nomatch given), ?_⟩
    · rw [moves.mark right rfl]
      exact .none
    · intro size
      rw [incrementSize, backDistance]
      omega
  · simp only [Bool.false_eq_true, ↓reduceIte] at run
    rw [runs_bind] at run
    obtain ⟨site, s₁, jumps, run⟩ := run
    obtain ⟨rfl, progress₁, tokens₁⟩ := emitJump_spec jumps sound fun _ => rfl
    rw [runs_get_bind, runs_bind] at run
    obtain ⟨u₂, s₂, first, run⟩ := run
    obtain ⟨e, code, phrase⟩ := expression_spec reads.expressions first progress₁.sound
    rw [runs_bind] at run
    obtain ⟨u₃, s₃, pops, run⟩ := run
    obtain ⟨progress₃, tokens₃⟩ := emit_spec pops phrase.progress.sound
    obtain ⟨right, s₄, moves₄, run⟩ := runs_expect run progress₃.sound (by decide)
    have turned := progress₁.trans ((phrase.progress.trans progress₃).andMoves moves₄)
    rw [runs_bind] at run
    obtain ⟨u₅, s₅, loops, run⟩ := run
    obtain ⟨progress₅, loopFits, tokens₅⟩ := emitLoop_spec loops moves₄.progress.sound
    have distance : codeSize s₄.body.instrs + 3 - start = conditionSize cond + codeSize code + 7 := by
      rw [turned.instrs]
      simp only [codeSize_append, codeSize_cons, codeSize_nil, Instr.size, before]
      omega
    rw [distance] at progress₅ loopFits
    have waiting : Progress s s₅ ([] ++ Instr.jump 0xffff ::
        (code ++ [Instr.pop, Instr.loop (UInt16.ofNat (conditionSize cond + codeSize code + 7))])) 0 := by
      have all := turned.trans progress₅
      simp only [List.append_assoc, List.cons_append, List.nil_append] at all ⊢
      exact all
    rw [runs_bind] at run
    obtain ⟨u₆, s₆, lands, run⟩ := run
    rw [← List.append_nil s.body.instrs] at lands
    obtain ⟨progress, -, tokens₆, future₆⟩ := waiting.land .jump lands
    have size : codeSize (code ++
        [Instr.pop, Instr.loop (UInt16.ofNat (conditionSize cond + codeSize code + 7))]) =
          codeSize code + 4 := by
      simp only [codeSize_append, codeSize_cons, codeSize_nil, Instr.size]
    rw [size] at progress
    obtain ⟨rfl, rfl, -⟩ := runs_pure.1 run
    refine ⟨some e, some code, ?_, progress, ?_, ?_, ?_⟩
    · have reading := phrase.reads
      rw [tokens₁.words, ← tokens₃.words, moves₄.mark right rfl] at reading
      rw [tokens₆.words, tokens₅.words]
      exact .some reading
    · exact fun Γ L later => .some (phrase.emits Γ L (progress₃.future
        (moves₄.progress.future (progress₅.future (future₆ Γ L later)))))
    · rintro is ⟨⟩
      exact loopFits
    · intro size
      rw [progress₁.sound.body.size, progress₁.instrs, incrementSize, backDistance]
      simp only [codeSize_append, codeSize_cons, codeSize_nil, Instr.size, before]
      omega

/-- The one variable of the scope that is left. -/
lemma Progress.scopeLocal {code : List Instr} (h : Progress s s' code 1) :
    ∃ w, s'.body.locals.take 1 = [w] := by
  have length := h.length
  cases locals : s'.body.locals with
  | nil =>
    rw [locals] at length
    cases length
  | cons w outer => exact ⟨w, rfl⟩

lemma lastSlot_spec {n : Nat} (run : Runs lastSlot s n s') :
    s = s' ∧ s.body.locals.length - 1 = n := by
  unfold lastSlot at run
  rw [runs_get_bind] at run
  dsimp only at run
  rcases runs_ite.1 run with ⟨-, run⟩ | ⟨-, run⟩
  · rw [runs_bind] at run
    obtain ⟨u, s₁, fails, -⟩ := run
    exact absurd fails not_runs_fail
  · obtain ⟨count, same, -⟩ := runs_pure.1 run
    exact ⟨same, count⟩

theorem forCopy_spec (reads : inner.Reads) {x : String} {slot : Nat} {u : Unit}
    (run : Runs (forBody inner (some (x, slot))) s u s') (sound : s.Sound)
    (settled : s.body.Settled) :
    ∃ (body : Stmt .statement) (code : List Instr),
      body.Reads s.words s'.words ∧ Progress s s' code 0 ∧
        s.body.locals.length + 1 ≤ maxOperands ∧
        ∀ Γ L, Future s' Γ L → ∃ w items, w.name = x ∧ body.Emits Γ false (w :: L) items (w :: L) ∧
          instrs (copyItems L slot w items) = code := by
  unfold forBody at run
  rw [runs_bind] at run
  obtain ⟨u₁, s₁, begins, run⟩ := run
  obtain rfl := beginScope_spec begins
  rw [runs_bind] at run
  obtain ⟨u₂, s₂, copies, run⟩ := run
  obtain ⟨progress₂, tokens₂⟩ := emit_spec copies sound.inScope
  have settled₂ : s₂.body.Settled := progress₂.settled settled
  rw [runs_bind] at run
  obtain ⟨u₃, s₃, pushes, run⟩ := run
  obtain ⟨rfl, fits⟩ := addLocal_spec pushes
  have inside₂ : s₂.body.depth ≠ 0 := by
    rw [progress₂.depth]
    exact Nat.succ_ne_zero _
  rw [runs_bind] at run
  obtain ⟨u₄, s₄, marks, run⟩ := run
  obtain ⟨progress₄, tokens₄, grown⟩ := (Progress.refl
    (progress₂.sound.pushing settled₂ fits x)).givenValue progress₂.sound settled₂ inside₂ marks
  have copied := progress₂.trans progress₄
  have copy : s₄.body.locals.length - 1 = s.body.locals.length := by
    rw [copied.length]
    rfl
  rw [runs_bind] at run
  obtain ⟨n, s₄', counts, run⟩ := run
  obtain ⟨rfl, rfl⟩ := lastSlot_spec counts
  rw [copy, runs_bind] at run
  obtain ⟨u₅, s₅, statement, run⟩ := run
  obtain ⟨body, code, passage⟩ :=
    reads.statement statement copied.sound progress₄.settled_after
  rw [runs_bind] at run
  obtain ⟨u₆, s₆, emits₆, run⟩ := run
  obtain ⟨progress₆, tokens₆⟩ := emit_spec emits₆ (passage false).progress.sound
  rw [runs_bind] at run
  obtain ⟨u₇, s₇, emits₇, run⟩ := run
  obtain ⟨progress₇, tokens₇⟩ := emit_spec emits₇ progress₆.sound
  rw [runs_bind] at run
  obtain ⟨u₈, s₈, emits₈, run⟩ := run
  obtain ⟨progress₈, tokens₈⟩ := emit_spec emits₈ progress₇.sound
  have back := progress₆.trans (progress₇.trans progress₈)
  have whole := copied.trans ((passage false).progress.trans back)
  obtain ⟨w, last⟩ := Progress.scopeLocal whole
  obtain ⟨progress, tokens, future⟩ := whole.leaveScope sound settled run
  rw [last] at progress future
  refine ⟨body, _, ?_, progress, ?_, ?_⟩
  · have reading := (passage false).reads
    have words₄ : s₄.words = s.words := by
      rw [tokens₄.words]
      exact tokens₂.words
    rw [words₄] at reading
    rw [tokens.words, tokens₈.words, tokens₇.words, tokens₆.words]
    exact reading
  · rw [progress₂.length] at fits
    exact fits
  · intro Γ L later
    have before₅ := back.future (future Γ L later)
    obtain ⟨-, v, named, split⟩ := grown Γ _ ((passage false).progress.future before₅)
    obtain ⟨rfl, -⟩ := List.cons.inj split
    obtain ⟨items, emitted, items_eq⟩ := (passage false).emits Γ _ before₅
    have length : L.length = s.body.locals.length := by
      rw [later.length (progress.settled settled), progress.length, Nat.add_zero]
    refine ⟨w, items, named, emitted, ?_⟩
    simp only [copyItems, instrs_append, instrs_under, items_eq, length, List.append_assoc,
      List.cons_append, List.nil_append]

theorem forExit_spec {s₀ : State} {cond step : Option (List Instr)} {after : List Instr}
    {bodySize k : Nat} {u : Unit} (h : Progress s₀ s (waitingCondition cond ++ after) k)
    (size : codeSize after = incrementSize step + bodySize + 3)
    (run : Runs (forExit (cond.map fun is => siteAfter (s₀.body.instrs ++ is))) s u s') :
    Progress s₀ s' (conditionCode step bodySize cond ++ (after ++ exitCode cond)) k ∧
      (cond.isSome → 1 + incrementSize step + bodySize + 3 ≤ maxDistance) ∧ SameTokens s s' ∧
      ∀ Γ L, Future s' Γ L → Future s Γ L := by
  cases cond with
  | none =>
    obtain ⟨-, rfl, -⟩ := runs_pure.1 run
    refine ⟨?_, fun some => (nomatch some), .refl _, fun Γ L later => later⟩
    rw [exitCode, List.append_nil]
    exact h
  | some is =>
    rw [Option.map_some, forExit, runs_bind] at run
    obtain ⟨u₁, s₁, lands, run⟩ := run
    have waiting : Progress s₀ s (is ++ .jumpIfFalse 0xffff :: (.pop :: after)) k := by
      have all := h
      simp only [waitingCondition, List.append_assoc, List.cons_append, List.nil_append] at all ⊢
      exact all
    obtain ⟨progress₁, fits, tokens₁, future₁⟩ := waiting.land .jumpIfFalse lands
    have distance : codeSize (.pop :: after) = 1 + incrementSize step + bodySize + 3 := by
      rw [codeSize_cons, size, Instr.size]
      omega
    rw [distance] at progress₁ fits
    obtain ⟨progress₂, tokens₂⟩ := emit_spec run progress₁.sound
    refine ⟨?_, fun _ => fits, tokens₁.trans tokens₂, fun Γ L later =>
      future₁ Γ L (progress₂.future later)⟩
    have all := progress₁.trans progress₂
    simp only [conditionCode, exitCode, List.append_assoc, List.cons_append, List.nil_append,
      Nat.zero_add] at all ⊢
    exact all

/-- The part of a loop after its first clause, where `P` is what is known of the body. -/
theorem loop_spec (reads : inner.Reads) {loopVariable : Option (String × Nat)}
    {P : Context → List Local → Stmt .statement → List Instr → Prop}
    {α : Type} {a : α} {f : Unit → Compiling α} [careful : Careful (f ())]
    (run : Runs (get >>= fun t => forCondition inner >>= fun exit =>
      forIncrement inner t.body.size >>= fun back => forBody inner loopVariable >>= fun _ =>
      emitLoop back >>= fun _ => forExit exit >>= f) s a s')
    (sound : s.Sound) (settled : s.body.Settled)
    (body : ∀ {s₁ s₂ : State} {u : Unit}, Runs (forBody inner loopVariable) s₁ u s₂ → s₁.Sound →
      s₁.body.Settled → ∃ t code, t.Reads s₁.words s₂.words ∧ Progress s₁ s₂ code 0 ∧
        ∀ Γ L, Future s₂ Γ L → P Γ L t code) :
    ∃ (c e : Option (Expr .expression)) (t : Stmt .statement) (cond step : Option (List Instr))
      (code : List Instr) (ws ws' : List Word) (s₁ : State),
      ReadsClause .semicolon s.words c ws ∧ ReadsClause .rightParen ws e ws' ∧
        t.Reads ws' s₁.words ∧
        Progress s s₁ (conditionCode step (codeSize code) cond ++ (incrementCode cond step ++
          (code ++ .loop (UInt16.ofNat (backDistance cond step (codeSize code))) ::
            exitCode cond))) 0 ∧
        LoopFits cond step (codeSize code) ∧
        (∀ Γ L, Future s₁ Γ L → ClauseEmits Γ L c cond ∧ ClauseEmits Γ L e step ∧ P Γ L t code) ∧
        Runs (f ()) s₁ a s' := by
  have all : ∀ u, Careful (f u) := fun _ => careful
  rw [runs_get_bind, sound.body.size, runs_bind] at run
  obtain ⟨exit, s₁, condition, run⟩ := run
  obtain ⟨c, cond, readsC, progress₁, emits₁, rfl⟩ := forCondition_spec reads condition sound
  have before : codeSize s₁.body.instrs = codeSize s.body.instrs + conditionSize cond := by
    rw [progress₁.instrs, codeSize_append, codeSize_waitingCondition]
  rw [runs_bind] at run
  obtain ⟨back, s₂, increment, run⟩ := run
  obtain ⟨e, step, readsE, progress₂, emits₂, stepFits, distance⟩ :=
    forIncrement_spec reads increment progress₁.sound before
  have entered := progress₁.trans progress₂
  rw [runs_bind] at run
  obtain ⟨u₃, s₃, statement, run⟩ := run
  obtain ⟨t, code, readsT, progress₃, emits₃⟩ :=
    body statement entered.sound (entered.settled settled)
  rw [runs_bind] at run
  obtain ⟨u₄, s₄, loops, run⟩ := run
  obtain ⟨progress₄, backFits, tokens₄⟩ := emitLoop_spec loops progress₃.sound
  have size₂ : codeSize (incrementCode cond step) = incrementSize step := by
    cases step with
    | none => rfl
    | some is =>
      simp only [incrementCode, incrementSize, codeSize_append, codeSize_cons, codeSize_nil,
        Instr.size]
      omega
  have length : codeSize s₃.body.instrs + 3 - back = backDistance cond step (codeSize code) := by
    rw [← distance (codeSize code), progress₃.instrs, progress₂.instrs, codeSize_append,
      codeSize_append, size₂, before]
  rw [length] at progress₄ backFits
  have waiting : Progress s s₄ (waitingCondition cond ++ (incrementCode cond step ++
      (code ++ [Instr.loop (UInt16.ofNat (backDistance cond step (codeSize code)))]))) 0 :=
    progress₁.trans (progress₂.trans (progress₃.trans progress₄))
  have size : codeSize (incrementCode cond step ++
      (code ++ [Instr.loop (UInt16.ofNat (backDistance cond step (codeSize code)))])) =
        incrementSize step + codeSize code + 3 := by
    simp only [codeSize_append, codeSize_cons, codeSize_nil, Instr.size, size₂]
    omega
  rw [runs_bind] at run
  obtain ⟨u₅, s₅, exits, run⟩ := run
  obtain ⟨progress, exitFits, tokens₅, future⟩ := forExit_spec waiting size exits
  refine ⟨c, e, t, cond, step, code, s₁.words, s₂.words, s₅, readsC, readsE, ?_, ?_,
    ⟨exitFits, stepFits, backFits⟩, ?_, run⟩
  · rw [tokens₅.words, tokens₄.words]
    exact readsT
  · simp only [List.append_assoc, List.cons_append, List.nil_append] at progress ⊢
    exact progress
  · intro Γ L later
    have before₃ := progress₄.future (future Γ L later)
    have before₂ := progress₃.future before₃
    exact ⟨emits₁ Γ L (progress₂.future before₂), emits₂ Γ L before₂, emits₃ Γ L before₃⟩

theorem forStatement_spec (reads : inner.Reads) {u : Unit}
    (run : Runs (forStatement inner) s u s') (sound : s.Sound) (settled : s.body.Settled) :
    ∃ (t : Stmt .statement) (code : List Instr),
      ∀ top, Passage top (.mark .kwFor :: s.words) s'.words s s' t code 0 := by
  unfold forStatement at run
  rw [runs_bind] at run
  obtain ⟨u₁, s₁, begins, run⟩ := run
  obtain rfl := beginScope_spec begins
  obtain ⟨left, s₂, moves₂, run⟩ := runs_expect run sound.inScope (by decide)
  rw [runs_bind] at run
  obtain ⟨loopVariable, s₃, clause, run⟩ := run
  have inside : s₂.body.depth ≠ 0 := by
    rw [moves₂.progress.depth]
    exact Nat.succ_ne_zero _
  have settled₂ : s₂.body.Settled := moves₂.progress.settled settled
  obtain ⟨first, start, k, readsF, clause⟩ :=
    forInitializer_spec reads clause moves₂.progress.sound settled₂ inside
  have opening : s.words = .mark .leftParen :: s₂.words := moves₂.mark left rfl
  cases clause with
  | plain progress₃ emits₃ =>
    have progress₃' := moves₂.progress.trans progress₃
    obtain ⟨c, e, t, cond, step, code, ws, ws', s₄, readsC, readsE, readsT, progress₄, fits, emits₄,
      run⟩ := loop_spec (P := fun Γ L t code => ∃ items, t.Emits Γ false L items L ∧
        instrs items = code) reads run progress₃.sound (progress₃.settled settled₂)
        fun statement sound settled => by
          obtain ⟨t, code, passage⟩ := reads.statement statement sound settled
          exact ⟨t, code, (passage false).reads, (passage false).progress, (passage false).emits⟩
    obtain ⟨progress, tokens, future⟩ := (progress₃'.trans progress₄).leaveScope sound settled run
    refine ⟨.forLoop first c e t, _, fun top => ⟨?_, progress, ?_⟩⟩
    · rw [opening, tokens.words]
      exact .forLoop readsF readsC readsE readsT
    · intro Γ L later
      have before₄ : Future s₄ Γ L := future Γ L later
      obtain ⟨emitted, emitted', items, emitted'', rfl⟩ := emits₄ Γ L before₄
      refine ⟨_, .forLoop (emits₃ Γ L (progress₄.future before₄)) emitted emitted' emitted'' fits,
        ?_⟩
      simp only [instrs_framed, loopItems, instrs_append, instrs_under, List.append_assoc,
        List.nil_append, Nat.add_zero, List.take_zero, exits, List.map_nil, List.append_nil]
  | @declares x value _ progress₃ emits₃ =>
    have progress₃' : Progress s.inScope s₃ start 1 := moves₂.progress.trans progress₃
    obtain ⟨c, e, t, cond, step, code, ws, ws', s₄, readsC, readsE, readsT, progress₄, fits, emits₄,
      run⟩ := loop_spec (P := fun Γ L t code => L.length + 1 ≤ maxOperands ∧ ∃ w items, w.name = x ∧
        t.Emits Γ false (w :: L) items (w :: L) ∧
          instrs (copyItems L s₂.body.locals.length w items) = code)
        reads run progress₃.sound progress₃.settled_after
        fun {s₅ s₆ u} statement sound settled => by
          obtain ⟨t, code, readsT, progress, fits, emits⟩ :=
            forCopy_spec reads statement sound settled
          refine ⟨t, code, readsT, progress, fun Γ L later => ⟨?_, emits Γ L later⟩⟩
          rw [later.length (progress.settled settled), progress.length]
          exact fits
    have whole : Progress s.inScope s₄ _ 1 := progress₃'.trans progress₄
    obtain ⟨v, last⟩ := Progress.scopeLocal whole
    obtain ⟨progress, tokens, future⟩ := whole.leaveScope sound settled run
    rw [last] at progress future
    refine ⟨.forLoop (.var x value) c e t, _, fun top => ⟨?_, progress, ?_⟩⟩
    · rw [opening, tokens.words]
      exact .forLoop readsF readsC readsE readsT
    · intro Γ L later
      have before₄ : Future s₄ Γ (v :: L) := future Γ L later
      obtain ⟨emitted, emitted', localsFit, w, items, copyNamed, emitted'', rfl⟩ :=
        emits₄ Γ _ before₄
      obtain ⟨value_, v', named, split⟩ := emits₃ Γ _ (progress₄.future before₄)
      obtain ⟨rfl, -⟩ := List.cons.inj split
      have length : s₂.body.locals.length = L.length := by
        rw [later.length (progress.settled settled), progress.length, moves₂.body]
        rfl
      rw [length] at fits ⊢
      refine ⟨_, .forVar value_ named copyNamed emitted emitted' emitted'' localsFit fits, ?_⟩
      simp only [instrs_framed, loopItems, instrs_append, instrs_under, List.append_assoc,
        List.drop_zero, itemsSize]

end Lox.Compile
