import Lox.Proofs.Compile.Declarations
import Lox.Proofs.Compile.Totality
import Lox.Proofs.Syntax.Names

/-!
# What compiles

The theorem that ties the compiler to the grammar: if a source compiles, its tokens read as a
program, and the function of the script has the code of that program (`compile_emits`).  The levels
of nesting are put together here, and the tokens that the scanner finds start the invariant.
-/

namespace Lox.Compile

open Syntax

variable {s s' : State}

/-! ## Levels -/

theorem statementBody_spec {inner : Level} [inner.Careful] (reads : inner.Reads) {u : Unit}
    (run : Runs (statementBody inner) s u s') (sound : s.Sound) (settled : s.body.Settled) :
    ∃ (t : Stmt .statement) (code : List Instr), ∀ top, Passage top s.words s'.words s s' t code 0 := by
  unfold statementBody at run
  rcases runs_accept run sound (by decide) with ⟨print, s₁, moves, run⟩ | ⟨-, run⟩
  · simp only [↓reduceIte] at run
    obtain ⟨t, code, passage⟩ := printStatement_spec reads run moves.progress.sound
    rw [← moves.mark print rfl] at passage
    exact ⟨t, code, fun top => (passage top).after moves⟩
  simp only [Bool.false_eq_true, ↓reduceIte] at run
  rcases runs_accept run sound (by decide) with ⟨if_, s₁, moves, run⟩ | ⟨-, run⟩
  · simp only [↓reduceIte] at run
    obtain ⟨t, code, passage⟩ := ifStatement_spec reads run moves.progress.sound
      (moves.progress.settled settled)
    rw [← moves.mark if_ rfl] at passage
    exact ⟨t, code, fun top => (passage top).after moves⟩
  simp only [Bool.false_eq_true, ↓reduceIte] at run
  rcases runs_accept run sound (by decide) with ⟨return_, s₁, moves, run⟩ | ⟨-, run⟩
  · simp only [↓reduceIte] at run
    obtain ⟨t, code, passage⟩ := returnStatement_spec reads run moves.progress.sound
    rw [← moves.mark return_ rfl] at passage
    exact ⟨t, code, fun top => (passage top).after moves⟩
  simp only [Bool.false_eq_true, ↓reduceIte] at run
  rcases runs_accept run sound (by decide) with ⟨while_, s₁, moves, run⟩ | ⟨-, run⟩
  · simp only [↓reduceIte] at run
    obtain ⟨t, code, passage⟩ := whileStatement_spec reads run moves.progress.sound
      (moves.progress.settled settled)
    rw [← moves.mark while_ rfl] at passage
    exact ⟨t, code, fun top => (passage top).after moves⟩
  simp only [Bool.false_eq_true, ↓reduceIte] at run
  rcases runs_accept run sound (by decide) with ⟨for_, s₁, moves, run⟩ | ⟨-, run⟩
  · simp only [↓reduceIte] at run
    obtain ⟨t, code, passage⟩ := forStatement_spec reads run moves.progress.sound
      (moves.progress.settled settled)
    rw [← moves.mark for_ rfl] at passage
    exact ⟨t, code, fun top => (passage top).after moves⟩
  simp only [Bool.false_eq_true, ↓reduceIte] at run
  rcases runs_accept run sound (by decide) with ⟨brace, s₁, moves, run⟩ | ⟨-, run⟩
  · simp only [↓reduceIte] at run
    have settled₁ := moves.progress.settled settled
    rw [runs_bind] at run
    obtain ⟨u₂, s₂, begins, run⟩ := run
    obtain rfl := beginScope_spec begins
    rw [runs_bind] at run
    obtain ⟨u₃, s₃, block, run⟩ := run
    obtain ⟨ds, code, k, passage⟩ := blockBody_spec reads block moves.progress.sound.inScope
      settled₁ (Nat.succ_ne_zero _)
    obtain ⟨progress, tokens, future⟩ :=
      passage.progress.leaveScope moves.progress.sound settled₁ run
    refine ⟨.block ds, _, fun top => ⟨?_, moves.progress.trans progress, ?_⟩⟩
    · rw [moves.mark brace rfl, tokens.words]
      exact .block passage.reads
    · intro Γ L later
      obtain ⟨items, emitted, rfl⟩ := passage.emits Γ _ (future Γ L later)
      have length : (s₃.body.locals.take k).length = k := by
        rw [List.length_take, passage.progress.length]
        exact Nat.min_eq_left (Nat.le_add_left _ _)
      rw [List.drop_left' length] at emitted
      refine ⟨_, .block emitted, ?_⟩
      rw [instrs_framed, instrs_append, instrs_under]
      rfl
  · simp only [Bool.false_eq_true, ↓reduceIte] at run
    obtain ⟨e, code, reading, progress, emits⟩ := expressionStatement_spec reads run sound
    refine ⟨.expression e, _, fun top => ⟨.expression reading, progress, fun Γ L later => ?_⟩⟩
    refine ⟨_, .expression (emits Γ L later), ?_⟩
    rw [instrs_framed, instrs_under]

/-- However deeply phrases may be nested, reading one reads a tree and emits its code. -/
theorem level_reads (n : Nat) : (level n).Reads := by
  induction n with
  | zero =>
    have refuses : ∀ {s s' : State} {u : Unit}, ¬Runs refuseNesting s u s' := by
      intro s s' u run
      unfold refuseNesting at run
      rw [runs_bind] at run
      obtain ⟨u₁, s₁, complains, -⟩ := run
      exact not_runs_complainHere complains
    exact ⟨fun run _ => absurd run refuses, fun run _ _ => absurd run refuses,
      fun run _ _ _ => absurd run refuses⟩
  | succ n ih =>
    exact ⟨fun run sound => operatorsBody_spec ih.expressions run sound,
      fun run sound settled => statementBody_spec ih run sound settled,
      fun run sound settled inside => blockBody_spec ih run sound settled inside⟩

/-! ## Programs -/

theorem program_spec {outermost : Level} [outermost.Careful] (reads : outermost.Reads) :
    ∀ {fuel : Nat} {s s' : State} {u : Unit}, Runs (program outermost fuel) s u s' → s.Sound →
      s.body.Settled → s.body.depth = 0 → s.words.length ≤ fuel →
      ∃ (ds : Stmt .declarations) (code : List Instr) (k : Nat) (rest : List Word),
        Passage true s.words rest s s' ds code k ∧ nextKind rest = some .endOfInput := by
  intro fuel
  induction fuel with
  | zero =>
    intro s s' u run sound settled top enough
    rw [s.length_words] at enough
    exact absurd enough (Nat.not_succ_le_zero _)
  | succ fuel ih =>
    intro s s' u run sound settled top enough
    unfold program accept at run
    rw [runs_bind] at run
    obtain ⟨ends, s₁, accepts, run⟩ := run
    rw [runs_bind] at accepts
    obtain ⟨found, s₂, checks, accepts⟩ := accepts
    obtain ⟨rfl, found_iff⟩ := check_spec checks
    rcases runs_ite.1 accepts with ⟨yes, accepts⟩ | ⟨no, accepts⟩
    · rw [runs_bind] at accepts
      obtain ⟨u₁, s₃, advances, accepts⟩ := accepts
      obtain ⟨rfl, rfl, -⟩ := runs_pure.1 accepts
      simp only [↓reduceIte] at run
      obtain ⟨-, rfl, -⟩ := runs_pure.1 run
      have finished : nextKind s.words = some .endOfInput := by
        rw [s.nextKind_words, found_iff.1 yes]
      have progress : Progress s s₃ [] 0 := by
        rcases advance_cases advances sound with moves | ⟨-, rfl⟩
        · exact moves.progress
        · have sound' : State.Sound { s with previous := s.current } :=
            { sound with previous := sound.ahead _ List.mem_cons_self }
          exact { Progress.refl sound with sound := sound' }
      exact ⟨.noDeclarations, [], 0, s.words, ⟨.noDeclarations (Or.inr finished), progress,
        fun Γ L _ => ⟨[], .noDeclarations, rfl⟩⟩, finished⟩
    · obtain ⟨rfl, rfl, -⟩ := runs_pure.1 accepts
      simp only [Bool.false_eq_true, ↓reduceIte] at run
      rw [runs_bind] at run
      obtain ⟨u₂, s₂, first, run⟩ := run
      obtain ⟨d, code, k, passage⟩ := declaration_spec reads first sound settled
      rw [State.atTop_top top] at passage
      have shorter := passage.reads.length
      obtain ⟨ds, code', k', rest, passage', finished⟩ := ih run passage.progress.sound
        (passage.progress.settled settled) (by rw [passage.progress.depth]; exact top)
        (by rw [StmtSort.least] at shorter; omega)
      exact ⟨.declare d ds, _, _, rest, passage.declare passage', finished⟩

/-- The state before the first token of a source. -/
lemma start_spec {source : String} {strings : StringTable} {serial : Nat} {u : Unit}
    (run : Runs advance (State.start (Token.scan source) strings serial) u s') :
    s'.Sound ∧ s'.body = .start .script "" ∧ s'.enclosing = [] ∧
      s'.words = (Token.scan source).toList.map Token.word := by
  obtain ⟨ts, last, all, kind, -, spelled⟩ := Token.scan_spec source
  cases tokens : (Token.scan source).toList with
  | nil =>
    rw [tokens] at all
    exact absurd all.symm (List.append_ne_nil_of_right_ne_nil _ (List.cons_ne_nil _ _))
  | cons t rest =>
    have state := advance_next run tokens
    subst state
    refine ⟨?_, rfl, rfl, rfl⟩
    exact
      { bodies := fun b there => by
          rw [List.mem_singleton.1 there]
          exact Body.sound_start .script "" serial
        linked := ⟨fun i bound => absurd bound (Nat.not_lt_zero i), trivial⟩
        settled := fun b there => absurd there List.not_mem_nil
        pending := fun v there => absurd there List.not_mem_nil
        previous := ⟨fun name => (nomatch name), fun this => (nomatch this), fun string => (nomatch string)⟩
        ahead := fun t' there => spelled t' (by rw [← all, tokens]; exact there)
        ends := fun t' final => by
          have same : (ts ++ [last]).getLast? = some t' := by
            rw [← all, tokens]
            exact final
          rw [List.getLast?_concat] at same
          rw [← Option.some.inj same]
          exact kind
        budget := by
          show rest.length + 1 ≤ (Token.scan source).size
          rw [← Array.length_toList, tokens]
          exact Nat.le_refl _
        superclass := fun inside => absurd inside Bool.false_ne_true }

/-- The script has the code of a program; its slot zero is the variable that is left at the end. -/
theorem script_spec {source : String} {strings : StringTable} {serial : Nat} {p : Prototype}
    (run : Runs script (State.start (Token.scan source) strings serial) p s') :
    ∃ ds, ReadsProgram ((Token.scan source).toList.map Token.word) ds ∧
      ∃ (Γ : Context) (v : Local) (items : List Item) (L : List Local), v ∈ s'.body.locals ∧
        Γ.kind = .script ∧ Γ.around = [] ∧ v.name = "" ∧
          ds.Emits Γ true [v] items L ∧ Assembles p "" 0 Γ items L := by
  unfold script at run
  rw [runs_bind] at run
  obtain ⟨u₁, s₁, starts, run⟩ := run
  obtain ⟨sound₁, body, enclosing, words⟩ := start_spec starts
  have settled₁ : s₁.body.Settled := by
    rw [body]
    exact Body.settled_start .script ""
  rw [runs_get_bind, runs_bind] at run
  obtain ⟨u₂, s₂, reads, run⟩ := run
  obtain ⟨ds, code, k, rest, passage, finished⟩ := program_spec (level_reads maxNesting) reads
    sound₁ settled₁ (by rw [body]; rfl) sound₁.budget_words
  rw [runs_bind] at run
  obtain ⟨result, s₃, closes, run⟩ := run
  obtain ⟨rfl, rfl, -⟩ := runs_pure.1 run
  obtain ⟨u₄, s₄, returns, rfl, body', -⟩ := closeBody_cases closes
  obtain ⟨progress, -⟩ := emitReturn_spec returns passage.progress.sound
  rw [passage.progress.kind] at progress
  have whole := passage.progress.trans progress
  have around : s₄.enclosing = [] := by
    have deepens := whole.enclosing
    rw [enclosing] at deepens
    exact List.forall₂_nil_left_iff.1 deepens
  have future : Future s₄ (s₄.body.context []) s₄.body.locals := by
    have now := Future.now (whole.settled settled₁)
    rw [around] at now
    exact now
  obtain ⟨items, emitted, rfl⟩ := passage.emits _ _ (progress.future future)
  refine ⟨ds, ⟨rest, ?_, finished⟩, ?_⟩
  · rw [← words]
    exact passage.reads
  · have grown := (passage.progress.future (progress.future future)).locals
    rw [settled₁.visible, body] at grown
    have among : (s₄.body.locals.drop 0).drop k ⊆ s₃.body.locals := by
      rw [body' around]
      exact List.drop_subset _ _
    generalize (s₄.body.locals.drop 0).drop k = start at grown emitted among
    cases grown with
    | @cons _ v _ outer first others =>
      cases others with
      | nil =>
        have code : s₁.body.instrs = [] := by
          rw [body]
          rfl
        have pool : s₁.body.constants = #[] := by
          rw [body]
          rfl
        have arity : s₁.body.arity = 0 := by
          rw [body]
          rfl
        have name : s₁.body.name = "" := by
          rw [body]
          rfl
        have kind : s₄.body.kind = .script := by
          rw [whole.kind, body]
          rfl
        have grown : ScopesGrow (s₄.enclosing.map Body.scope) [] := by
          rw [around]
          exact .refl _
        have assembles : Assembles _ _ _ _ items s₄.body.locals :=
          whole.assembles code pool (arity ▸ Nat.zero_le _) grown
        rw [name, arity] at assembles
        exact ⟨s₄.body.context [], v, items, _, among List.mem_cons_self, kind, rfl, first.name, emitted, assembles⟩

end Lox.Compile

namespace Lox

open Compile Syntax

lemma Token.properWords_scan (source : String) :
    Syntax.ProperWords ((Token.scan source).toList.map Token.word) := by
  obtain ⟨ts, last, all, -, -, spelled⟩ := Token.scan_spec source
  rw [all]
  intro w there name
  obtain ⟨t, token, rfl⟩ := List.mem_map.1 there
  have kind : t.kind = .identifier := name
  have text : t.word.text = t.lexeme := if_pos (by rw [kind]; rfl)
  rw [text]
  exact (spelled t token).name kind

/-- A source compiles if there is a quiet run of the compiler on its tokens. -/
lemma compile_runs {source : String} {strings : StringTable} {serial : Nat} {p : Prototype} :
    (compile source strings serial).outcome = .ok p ↔
      ∃ s, Runs script (State.start (Token.scan source) strings serial) p s := by
  have sane : (State.start (Token.scan source) strings serial).Sane :=
    fun panicking => absurd panicking Bool.false_ne_true
  have faultless := (script_finishes source strings serial).1
  unfold compile StateT.run
  generalize final : script (State.start (Token.scan source) strings serial) = result at faultless
  obtain ⟨q, s⟩ := result
  dsimp only at faultless ⊢
  have careful : Careful script := by
    unfold script
    infer_instance
  constructor
  · intro ok
    split at ok
    · next quiet =>
      obtain rfl := Except.ok.inj ok
      have diagnostics : s.diagnostics = #[] := Array.isEmpty_iff.1 quiet
      have sane' := (worsens script _).sane sane
      rw [final] at sane'
      refine ⟨s, final, sane, diagnostics, ?_, faultless⟩
      exact Bool.eq_false_iff.2 fun panicking => sane' panicking diagnostics
    · exact nomatch ok
  · rintro ⟨s', run⟩
    obtain ⟨rfl, rfl⟩ := Prod.mk.inj (final.symm.trans run.eq)
    rw [if_pos (Array.isEmpty_iff.2 run.clean.diagnostics)]

/-- A source that compiles is a program, and its script has the code of that program. -/
theorem compile_emits {source : String} {strings : StringTable} {serial : Nat} {p : Prototype}
    (compiles : (compile source strings serial).outcome = .ok p) :
    ∃ ds, ReadsProgram ((Token.scan source).toList.map Token.word) ds ∧ ds.Proper ∧
      ScriptEmits p ds := by
  obtain ⟨s, run⟩ := compile_runs.1 compiles
  obtain ⟨ds, ⟨rest, tree, ends⟩, Γ, v, items, L, -, emits⟩ := script_spec run
  exact ⟨ds, ⟨rest, tree, ends⟩, (tree.proper (Token.properWords_scan source)).1, Γ, v, items, L, emits⟩

end Lox
