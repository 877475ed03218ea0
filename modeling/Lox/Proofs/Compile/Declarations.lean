import Lox.Proofs.Compile.Statements

/-!
# The code of declarations

Reading a declaration without a complaint reads a tree and emits its code (`declaration_spec`), and
so does reading the declarations of a block (`blockBody_spec`).  While a class is read it is on the
stack of open classes; `Progress.reclass` carries what has been read over to the stack as it is
before and after.
-/

namespace Lox.Compile

open Syntax

variable {s s' : State} {inner : Level} [inner.Careful]

/-! ## Functions -/

theorem functionDeclaration_spec (reads : inner.Reads) {u : Unit}
    (run : Runs (functionDeclaration inner) s u s') (sound : s.Sound) (settled : s.body.Settled) :
    ∃ (d : Stmt .declaration) (code : List Instr),
      Passage s.atTop (.mark .kwFun :: s.words) s'.words s s' d code s.places := by
  unfold functionDeclaration at run
  rw [runs_bind] at run
  obtain ⟨index, s₂, parses, run⟩ := run
  obtain ⟨identifier, s₁, moves₁, declares, tokens₂⟩ := parseVariable_spec parses sound settled
  have settled₁ := moves₁.progress.settled settled
  rw [runs_bind] at run
  obtain ⟨u₃, s₃, marks, run⟩ := run
  obtain ⟨progress₃, tokens₃, after⟩ := declares.early moves₁.progress.sound settled₁ marks
  rw [runs_bind] at run
  obtain ⟨u₄, s₄, reads₄, run⟩ := run
  obtain ⟨params, body, entry, captures, ws, words, reading, progress₄, closes⟩ :=
    function_spec reads reads₄ progress₃.sound (progress₃.settled settled₁)
  obtain ⟨define, progress, tokens, binds⟩ := after progress₄ run
  have previous : s₃.previous = s₁.previous := (tokens₂.trans tokens₃).previous
  rw [previous] at closes
  rw [moves₁.places] at progress binds
  rw [moves₁.atTop] at binds
  refine ⟨.function s₁.previous.lexeme params body, _, ?_, moves₁.progress.trans progress, ?_⟩
  · rw [moves₁.name identifier, ← (tokens₂.trans tokens₃).words, words, tokens.words]
    exact .function reading
  · intro Γ L later
    obtain ⟨before, bound⟩ := binds Γ L later
    obtain ⟨Γ', start, items, stop, p, inside, names, emitted, constant, assembles, rfl⟩ :=
      closes Γ L before
    refine ⟨_, .function bound inside names emitted constant assembles, ?_⟩
    rw [instrs_framed, instrs_under]
    rfl

/-! ## Methods -/

theorem method_spec (reads : inner.Reads) {u : Unit} (run : Runs (method inner) s u s')
    (sound : s.Sound) (settled : s.body.Settled) :
    ∃ (x : String) (params : List String) (body : Stmt .declarations) (entry name : UInt8)
      (captures : List Capture) (ws : List Word),
      s.words = .name x :: .mark .leftParen :: (paramWords params ++ .mark .leftBrace :: ws) ∧
        body.Reads ws (.mark .rightBrace :: s'.words) ∧
        Progress s s' [.closure entry captures, .method name] 0 ∧
        ∀ Γ L, Future s' Γ L →
          Γ.IsName name x ∧ Closes Γ L (methodKind x) x params body entry captures := by
  unfold method at run
  obtain ⟨identifier, s₁, moves₁, run⟩ := runs_expect run sound (by decide)
  rw [runs_get_bind] at run
  dsimp only at run
  rw [runs_bind] at run
  obtain ⟨name, s₂, makes, run⟩ := run
  obtain ⟨progress₂, tokens₂, named⟩ := stringConstant_spec makes moves₁.progress.sound
  have entered := moves₁.progress.trans progress₂
  rw [runs_bind] at run
  obtain ⟨u₃, s₃, reads₃, run⟩ := run
  obtain ⟨params, body, entry, captures, ws, words, reading, progress₃, closes⟩ :=
    function_spec reads reads₃ progress₂.sound (entered.settled settled)
  obtain ⟨progress₄, tokens₄⟩ := emit_spec run progress₃.sound
  rw [tokens₂.previous] at closes
  refine ⟨s₁.previous.lexeme, params, body, entry, name, captures, ws, ?_, ?_,
    entered.trans (progress₃.trans progress₄), ?_⟩
  · rw [moves₁.name identifier, ← tokens₂.words, words]
  · rw [tokens₄.words]
    exact reading
  · intro Γ L later
    have before := progress₄.future later
    exact ⟨named Γ L (progress₃.future before), closes Γ L before⟩

lemma atBlockEnd_spec {b : Bool} (run : Runs atBlockEnd s b s') :
    s = s' ∧ (b = true ↔ EndsBlock s.words) := by
  unfold atBlockEnd at run
  rw [runs_get_bind] at run
  obtain ⟨rfl, rfl, -⟩ := runs_pure.1 run
  refine ⟨rfl, ?_⟩
  rw [EndsBlock, s.nextKind_words, Option.some.injEq, Option.some.injEq, Bool.or_eq_true,
    decide_eq_true_iff, decide_eq_true_iff]

theorem methods_spec (reads : inner.Reads) :
    ∀ {fuel : Nat} {s s' : State} {u : Unit}, Runs (methods inner fuel) s u s' → s.Sound →
      s.body.Settled → s.words.length ≤ fuel →
      ∃ (ms : Stmt .methods) (code : List Instr),
        ∀ top, Passage top s.words s'.words s s' ms code 0 := by
  intro fuel
  induction fuel with
  | zero =>
    intro s s' u run sound settled enough
    rw [s.length_words] at enough
    exact absurd enough (Nat.not_succ_le_zero _)
  | succ fuel ih =>
    intro s s' u run sound settled enough
    unfold methods at run
    rw [runs_bind] at run
    obtain ⟨ends, s₁, checks, run⟩ := run
    obtain ⟨rfl, ends_iff⟩ := atBlockEnd_spec checks
    rcases runs_ite.1 run with ⟨yes, run⟩ | ⟨no, run⟩
    · obtain ⟨-, rfl, -⟩ := runs_pure.1 run
      exact ⟨.noMethods, [], fun top => ⟨.noMethods (ends_iff.1 yes), .refl sound, fun Γ L _ =>
        ⟨[], .noMethods, rfl⟩⟩⟩
    · rw [runs_bind] at run
      obtain ⟨u₂, s₂, first, run⟩ := run
      obtain ⟨x, params, body, entry, name, captures, ws, words, reading, progress, closes⟩ :=
        method_spec reads first sound settled
      have shorter : s₂.words.length ≤ fuel := by
        have inside := reading.length
        have all := congrArg List.length words
        simp only [List.length_cons, List.length_append] at inside all
        omega
      obtain ⟨ms, others, passage⟩ := ih run progress.sound (progress.settled settled) shorter
      refine ⟨.method x params body ms, _, fun top =>
        ⟨?_, progress.trans (passage top).progress, ?_⟩⟩
      · rw [words]
        exact .method reading (passage top).reads
      · intro Γ L later
        have before := (passage top).progress.future later
        obtain ⟨named, Γ', start, items, stop, p, inside, names, emitted, constant, assembles,
          rfl⟩ := closes Γ L before
        obtain ⟨items', emitted', rfl⟩ := (passage top).emits Γ L later
        refine ⟨_, .method named inside names emitted constant assembles emitted', ?_⟩
        rw [instrs_append, instrs_under]

/-! ## Classes -/

/-- The state with other open classes. -/
def State.withClasses (s : State) (classes : List Bool) : State := { s with classes }

lemma State.Sound.withClasses {classes : List Bool} (sound : s.Sound)
    (known : classes.headD false = true → s.Knows "super") : (s.withClasses classes).Sound :=
  { sound with superclass := known }

/-- What has been read does not depend on the open classes. -/
lemma Progress.reclass {classes : List Bool} {code : List Instr} {k : Nat}
    (h : Progress s s' code k) (known : classes.headD false = true → s.Knows "super") :
    Progress (s.withClasses classes) (s'.withClasses classes) code k :=
  { h with
    sound := h.sound.withClasses fun inside => (known inside).grow h.locals h.enclosing
    classes := rfl }

lemma Future.reclass {classes : List Bool} {Γ : Context} {L : List Local}
    (h : Future (s.withClasses classes) Γ L) : Future s Γ L :=
  ⟨h.kind, h.constants, h.captures, h.locals, h.around⟩

/-- The superclass `y` of class `x` has been read, at first in state `b`; then a scope has been
opened for it, up to state `d`. -/
structure Inherits (s : State) (x y : String) (b d : State) (parent place : Access) : Prop where
  words : s.words = .mark .less :: .name y :: b.words
  proper : x ≠ y
  before : Progress s b [parent.read] 0
  progress : Progress b.inScope d [place.read, .inherit] 1
  tokens : d.words = b.words
  emits : ∀ Γ L, Future d Γ L → ∃ hidden, hidden.name = "super" ∧ L = hidden :: L.drop 1 ∧
    Resolves Γ (L.drop 1) y parent ∧ Resolves Γ L x place

theorem superclass_spec {x : String} {u : Unit} (run : Runs (superclass x) s u s') (sound : s.Sound)
    (settled : s.body.Settled) :
    (s.current.kind ≠ .less ∧ s = s') ∨
      ∃ y b d parent place, Inherits s x y b d parent place ∧
        d.withClasses (true :: d.classes.drop 1) = s' := by
  unfold superclass at run
  rcases runs_accept run sound (by decide) with ⟨less, s₁, moves₁, run⟩ | ⟨other, run⟩
  · right
    simp only [↓reduceIte] at run
    obtain ⟨identifier, s₂, moves₂, run⟩ := runs_expect run moves₁.progress.sound (by decide)
    rw [runs_get_bind] at run
    rw [runs_bind] at run
    obtain ⟨u₃, b, reads₃, run⟩ := run
    obtain ⟨parent, progress₃, tokens₃, -, leads⟩ := readVariable_spec reads₃ moves₂.progress.sound
    have before := (moves₁.progress.andMoves moves₂).trans progress₃
    rcases runs_ite.1 run with ⟨-, run⟩ | ⟨proper, run⟩
    · rw [runs_bind] at run
      obtain ⟨u₄, s₄, complains, -⟩ := run
      exact absurd complains not_runs_complain
    · rw [runs_bind] at run
      obtain ⟨u₄, s₄, begins, run⟩ := run
      obtain rfl := beginScope_spec begins
      have sound₄ := before.sound.inScope
      have settled₄ : b.inScope.body.Settled := before.settled settled
      rw [runs_bind] at run
      obtain ⟨u₅, s₅, pushes, run⟩ := run
      obtain ⟨rfl, fits⟩ := addLocal_spec pushes
      rw [runs_bind] at run
      obtain ⟨u₆, s₆, marks, run⟩ := run
      obtain ⟨progress₆, tokens₆, grown⟩ := (Progress.refl
        (sound₄.pushing settled₄ fits "super")).givenValue sound₄ settled₄ (Nat.succ_ne_zero _) marks
      rw [runs_bind] at run
      obtain ⟨u₇, s₇, reads₇, run⟩ := run
      obtain ⟨place, progress₇, tokens₇, -, leads₇⟩ := readVariable_spec reads₇ progress₆.sound
      rw [runs_bind] at run
      obtain ⟨u₈, d, emits, run⟩ := run
      obtain ⟨progress₈, tokens₈⟩ := emit_spec emits progress₇.sound
      have state : d.withClasses (true :: d.classes.drop 1) = s' := congrArg Prod.snd run.eq
      refine ⟨s₂.previous.lexeme, b, d, parent, place, ⟨?_, fun same => proper same.symm, before,
        progress₆.trans (progress₇.trans progress₈), ?_, ?_⟩, state⟩
      · rw [moves₁.mark less rfl, moves₂.name identifier, tokens₃.words]
      · rw [tokens₈.words, tokens₇.words, tokens₆.words]
        rfl
      · intro Γ L later
        have before₇ := progress₈.future later
        have before₆ := progress₇.future before₇
        obtain ⟨pushed, hidden, named, split⟩ := grown Γ L before₆
        refine ⟨hidden, named, split, leads Γ _ ?_, leads₇ Γ L before₇⟩
        have inner := progress₆.future before₆
        exact ⟨inner.kind, inner.constants, inner.captures, inner.locals, inner.around⟩
  · simp only [Bool.false_eq_true, ↓reduceIte] at run
    exact .inl ⟨other, (runs_pure.1 run).2.1⟩

/-- The methods of a class, from the name of the class on the stack to the end of its text. -/
lemma classBody_spec (reads : inner.Reads) {x : String} {α : Type} {a : α} {f : Unit → Compiling α}
    [careful : Careful (f ())] {what what' : String}
    (run : Runs (readVariable x >>= fun _ => expect .leftBrace what >>= fun _ =>
      get >>= fun t => methods inner t.budget >>= fun _ => expect .rightBrace what' >>= fun _ =>
      emit .pop >>= f) s a s') (sound : s.Sound) (settled : s.body.Settled) :
    ∃ (ms : Stmt .methods) (place : Access) (code : List Instr) (ws : List Word) (s₁ : State),
      s.words = .mark .leftBrace :: ws ∧ ms.Reads ws (.mark .rightBrace :: s₁.words) ∧
        Progress s s₁ (place.read :: (code ++ [.pop])) 0 ∧
        (∀ Γ L, Future s₁ Γ L → Resolves Γ L x place ∧ ∃ items,
          ms.Emits Γ false L items L ∧ instrs items = code) ∧
        Runs (f ()) s₁ a s' := by
  have all : ∀ u, Careful (f u) := fun _ => careful
  rw [runs_bind] at run
  obtain ⟨u₁, s₁, reads₁, run⟩ := run
  obtain ⟨place, progress₁, tokens₁, -, leads⟩ := readVariable_spec reads₁ sound
  obtain ⟨left, s₂, moves₂, run⟩ := runs_expect run progress₁.sound (by decide)
  have entered := progress₁.andMoves moves₂
  rw [runs_get_bind, runs_bind] at run
  obtain ⟨u₃, s₃, all, run⟩ := run
  obtain ⟨ms, code, passage⟩ := methods_spec reads all entered.sound (entered.settled settled)
    entered.sound.budget_words
  obtain ⟨right, s₄, moves₄, run⟩ := runs_expect run (passage false).progress.sound (by decide)
  rw [runs_bind] at run
  obtain ⟨u₅, s₅, pops, run⟩ := run
  obtain ⟨progress₅, tokens₅⟩ := emit_spec pops moves₄.progress.sound
  refine ⟨ms, place, code, s₂.words, s₅, ?_, ?_,
    entered.trans (((passage false).progress.andMoves moves₄).trans progress₅), ?_, run⟩
  · rw [← tokens₁.words]
    exact moves₂.mark left rfl
  · have reading := (passage false).reads
    rw [moves₄.mark right rfl] at reading
    rw [tokens₅.words]
    exact reading
  · intro Γ L later
    have before₃ := moves₄.progress.future (progress₅.future later)
    have before₁ := moves₂.progress.future ((passage false).progress.future before₃)
    exact ⟨leads Γ L before₁, (passage false).emits Γ L before₃⟩

/-- The class has been made, and its variable defined. -/
lemma classVariable_spec {α : Type} {a : α} {f : Unit → Compiling α} [careful : Careful (f ())]
    {x : String} (run : Runs (stringConstant x >>= fun constant => declareVariable >>= fun _ =>
      emit (.makeClass constant) >>= fun _ => defineVariable constant >>= f) s a s')
    (sound : s.Sound) (settled : s.body.Settled) (named : s.previous.lexeme = x) :
    ∃ index define s₁, Progress s s₁ (.makeClass index :: define) s.places ∧ SameTokens s s₁ ∧
      (∀ Γ L, Future s₁ Γ L → Γ.IsName index x ∧ Binds Γ (L.drop s.places) x s.atTop define L) ∧
      Runs (f ()) s₁ a s' := by
  have all : ∀ u, Careful (f u) := fun _ => careful
  rw [runs_bind] at run
  obtain ⟨index, s₂, makes, run⟩ := run
  obtain ⟨progress₂, tokens₂, name⟩ := stringConstant_spec makes sound
  have settled₂ := progress₂.settled settled
  have places : s₂.places = s.places := by rw [State.places, State.places, progress₂.depth]
  have atTop : s₂.atTop = s.atTop := by rw [State.atTop, State.atTop, progress₂.depth]
  rw [runs_bind] at run
  obtain ⟨u₃, s₃, declares, run⟩ := run
  have declared : Declares s₂ x index s₃ ∧ SameTokens s₂ s₃ := by
    rcases declareVariable_spec declares progress₂.sound settled₂ with
      ⟨top, rfl⟩ | ⟨inside, state, sound₃⟩
    · exact ⟨.global top (.refl progress₂.sound) name, .refl _⟩
    · rw [tokens₂.previous, named] at state
      subst state
      exact ⟨.slot inside rfl sound₃, ⟨rfl, rfl, rfl⟩⟩
  obtain ⟨declared, tokens₃⟩ := declared
  rw [runs_bind] at run
  obtain ⟨u₄, s₄, emits, run⟩ := run
  obtain ⟨progress₄, tokens₄⟩ := emit_spec emits declared.sound
  rw [runs_bind] at run
  obtain ⟨u₅, s₅, defines, run⟩ := run
  obtain ⟨define, progress₅, tokens₅, binds⟩ :=
    declared.define progress₄ progress₂.sound settled₂ defines
  have whole := progress₂.trans progress₅
  rw [places] at whole binds
  rw [atTop] at binds
  refine ⟨index, define, s₅, whole, tokens₂.trans (tokens₃.trans (tokens₄.trans tokens₅)), ?_, run⟩
  intro Γ L later
  have bound := (binds Γ L later).2
  refine ⟨?_, bound⟩
  have before := progress₅.future later
  rw [places] at before
  exact name Γ _ before

/-- The end of a class: the scope of the superclass is left if there is one. -/
lemma classEnd_spec {b : Bool} {classes : List Bool} {u : Unit}
    (run : Runs (get >>= fun t =>
      (modify fun s => { s with classes := s.classes.drop 1 } : Compiling Unit) >>= fun _ =>
        if t.classes.headD false = true then endScope else pure ()) s u s')
    (open_ : s.classes = b :: classes) :
    (b = true ∧ Runs endScope (s.withClasses classes) u s') ∨
      (b = false ∧ s.withClasses classes = s') := by
  rw [runs_get_bind, open_, runs_bind] at run
  obtain ⟨u₁, s₁, closes, run⟩ := run
  have state : s.withClasses (s.classes.drop 1) = s₁ := congrArg Prod.snd closes.eq
  rw [open_] at state
  subst state
  rcases runs_ite.1 run with ⟨inherits, run⟩ | ⟨plain, run⟩
  · exact .inl ⟨inherits, run⟩
  · exact .inr ⟨Bool.eq_false_iff.2 plain, (runs_pure.1 run).2.1⟩

theorem classDeclaration_spec (reads : inner.Reads) {u : Unit}
    (run : Runs (classDeclaration inner) s u s') (sound : s.Sound) (settled : s.body.Settled) :
    ∃ (d : Stmt .declaration) (code : List Instr),
      Passage s.atTop (.mark .kwClass :: s.words) s'.words s s' d code s.places := by
  have careful : ∀ className : String, Careful (do
      superclass className
      readVariable className
      expect .leftBrace "'\x7b' before class body"
      methods inner (← get).budget
      expect .rightBrace "'\x7d' after class body"
      emit .pop
      let hasSuperclass := (← get).classes.headD false
      modify fun s => { s with classes := s.classes.drop 1 }
      if hasSuperclass then endScope) := inferInstance
  unfold classDeclaration at run
  obtain ⟨identifier, s₁, moves₁, run⟩ := runs_expect run sound (by decide)
  rw [runs_get_bind] at run
  obtain ⟨index, define, s₅, progress₅, tokens₅, binds, run⟩ := classVariable_spec run
    moves₁.progress.sound (moves₁.progress.settled settled) rfl
  rw [moves₁.places] at progress₅ binds
  rw [moves₁.atTop] at binds
  have made : Progress s s₅ (.makeClass index :: define) s.places := moves₁.progress.trans progress₅
  have settled₅ := made.settled settled
  have words₁ : s.words = .name s₁.previous.lexeme :: s₅.words := by
    rw [tokens₅.words]
    exact moves₁.name identifier
  generalize s₁.previous.lexeme = x at *
  rw [runs_bind] at run
  obtain ⟨u₆, s₆, opens, run⟩ := run
  have state : s₅.withClasses (false :: s₅.classes) = s₆ := congrArg Prod.snd opens.eq
  subst state
  have sound₆ : (s₅.withClasses (false :: s₅.classes)).Sound :=
    made.sound.withClasses fun inside => absurd inside Bool.false_ne_true
  rw [runs_bind] at run
  obtain ⟨u₇, s₇, parents, run⟩ := run
  rcases superclass_spec parents sound₆ settled₅ with
    ⟨plain, rfl⟩ | ⟨y, b, d, parent, place, inherits, rfl⟩
  · obtain ⟨ms, place, code, ws, s₈, opening, reading, progress₈, emits₈, run⟩ :=
      classBody_spec reads run sound₆ settled₅
    have classes : s₈.classes = false :: s₅.classes := progress₈.classes
    rcases classEnd_spec run classes with ⟨inherits, -⟩ | ⟨-, rfl⟩
    · cases inherits
    · have progress : Progress s₅ (s₈.withClasses s₅.classes) _ 0 :=
        progress₈.reclass made.sound.superclass
      have whole := made.trans progress
      rw [Nat.zero_add] at whole
      refine ⟨.cls x none ms, _, ?_, whole, ?_⟩
      · rw [words₁, show s₅.words = superclassWords none ++ _ from opening]
        exact .cls reading
      · intro Γ L later
        obtain ⟨leads, items, emitted, rfl⟩ := emits₈ Γ L later.reclass
        obtain ⟨constant, bound⟩ := binds Γ L (progress.future later)
        refine ⟨_, .cls constant bound leads emitted, ?_⟩
        simp only [instrs_framed, instrs_append, instrs_under, List.cons_append, List.nil_append]
  · have classes_d : d.classes = false :: s₅.classes := inherits.progress.classes.trans
      inherits.before.classes
    rw [classes_d, List.drop_succ_cons, List.drop_zero] at run parents
    have settled_d := inherits.progress.settled_after
    have sound₇ : (d.withClasses (true :: s₅.classes)).Sound := by
      refine inherits.progress.sound.withClasses fun _ => ⟨d.body, List.mem_cons_self, ?_⟩
      obtain ⟨hidden, named, split, -⟩ := inherits.emits _ _ (.now settled_d)
      rw [split, findLocal?, if_pos named]
      exact Option.some_ne_none _
    obtain ⟨ms, again, code, ws, s₈, opening, reading, progress₈, emits₈, run⟩ :=
      classBody_spec reads run sound₇ settled_d
    rcases classEnd_spec run progress₈.classes with ⟨-, run⟩ | ⟨plain, -⟩
    · -- The parts are put together as they are with the classes that were open before.
      have before : Progress s₅ (b.withClasses s₅.classes) [parent.read] 0 :=
        inherits.before.reclass made.sound.superclass
      have entered : Progress (b.withClasses s₅.classes).inScope (d.withClasses s₅.classes)
          [place.read, .inherit] 1 :=
        inherits.progress.reclass before.sound.inScope.superclass
      have inside : Progress (d.withClasses s₅.classes) (s₈.withClasses s₅.classes)
          (again.read :: (code ++ [Instr.pop])) 0 :=
        progress₈.reclass entered.sound.superclass
      have within : Progress (b.withClasses s₅.classes).inScope (s₈.withClasses s₅.classes)
          ([place.read, .inherit] ++ again.read :: (code ++ [Instr.pop])) 1 := entered.trans inside
      obtain ⟨hidden, last⟩ := Progress.scopeLocal within
      obtain ⟨left, tokens, future⟩ :=
        within.leaveScope before.sound (before.settled settled₅) run
      rw [last] at left future
      have whole := made.trans (before.trans left)
      rw [Nat.zero_add] at whole
      refine ⟨.cls x (some y) ms, _, ?_, whole, ?_⟩
      · have words₅ : s₅.words = superclassWords (some y) ++ .mark .leftBrace :: ws := by
          rw [show s₅.words = _ from inherits.words, ← inherits.tokens, show d.words = _ from opening]
          rfl
        rw [words₁, words₅, tokens.words]
        exact .cls reading
      · intro Γ L later
        have before₈ : Future s₈ Γ (hidden :: L) := (future Γ L later).reclass
        obtain ⟨leads', items, emitted, rfl⟩ := emits₈ Γ _ before₈
        obtain ⟨hidden', named, split, superclass, leads⟩ :=
          inherits.emits Γ _ (progress₈.future before₈).reclass
        obtain ⟨rfl, -⟩ := List.cons.inj split
        obtain ⟨constant, bound⟩ := binds Γ L (before.future (left.future later))
        have length := before₈.length (progress₈.settled settled_d)
        have fits := progress₈.sound.body.localsFit
        rw [List.length_cons] at length
        refine ⟨_, .subclass constant bound inherits.proper superclass named leads leads'
          (by omega) emitted, ?_⟩
        simp only [instrs_framed, instrs_append, instrs_under, List.append_assoc, List.cons_append,
          List.nil_append]
    · cases plain

/-! ## Declarations -/

/-- Without complaints there is nothing to recover from. -/
lemma calm_spec {u : Unit}
    (run : Runs (get >>= fun t => if t.panicking = true then synchronize else pure ()) s u s') :
    s = s' := by
  have calm := run.start.calm
  rw [runs_get_bind] at run
  rcases runs_ite.1 run with ⟨panicking, -⟩ | ⟨-, run⟩
  · rw [calm] at panicking
    exact absurd panicking Bool.false_ne_true
  · exact (runs_pure.1 run).2.1

theorem declaration_spec (reads : inner.Reads) {u : Unit}
    (run : Runs (declaration inner) s u s') (sound : s.Sound) (settled : s.body.Settled) :
    ∃ (d : Stmt .declaration) (code : List Instr) (k : Nat),
      Passage s.atTop s.words s'.words s s' d code k := by
  unfold declaration at run
  rcases runs_accept run sound (by decide) with ⟨cls, s₁, moves, run⟩ | ⟨-, run⟩
  · simp only [↓reduceIte] at run
    rw [runs_bind] at run
    obtain ⟨u₂, s₂, declares, run⟩ := run
    obtain rfl := calm_spec run
    obtain ⟨d, code, passage⟩ := classDeclaration_spec reads declares moves.progress.sound
      (moves.progress.settled settled)
    rw [← moves.mark cls rfl, moves.atTop] at passage
    exact ⟨d, code, _, passage.after moves⟩
  · simp only [Bool.false_eq_true, ↓reduceIte] at run
    rcases runs_accept run sound (by decide) with ⟨function, s₁, moves, run⟩ | ⟨-, run⟩
    · simp only [↓reduceIte] at run
      rw [runs_bind] at run
      obtain ⟨u₂, s₂, declares, run⟩ := run
      obtain rfl := calm_spec run
      obtain ⟨d, code, passage⟩ := functionDeclaration_spec reads declares moves.progress.sound
        (moves.progress.settled settled)
      rw [← moves.mark function rfl, moves.atTop] at passage
      exact ⟨d, code, _, passage.after moves⟩
    · simp only [Bool.false_eq_true, ↓reduceIte] at run
      rcases runs_accept run sound (by decide) with ⟨var, s₁, moves, run⟩ | ⟨-, run⟩
      · simp only [↓reduceIte] at run
        rw [runs_bind] at run
        obtain ⟨u₂, s₂, declares, run⟩ := run
        obtain rfl := calm_spec run
        obtain ⟨x, value, code, define, reading, progress, emits⟩ := variableDeclaration_spec reads
          declares moves.progress.sound (moves.progress.settled settled)
        rw [moves.places] at progress emits
        rw [moves.atTop] at emits
        refine ⟨.var x value, _, _, ?_, moves.progress.trans progress, ?_⟩
        · rw [moves.mark var rfl]
          exact .var reading
        · intro Γ L later
          obtain ⟨emitted, binds⟩ := emits Γ L later
          refine ⟨_, .var emitted binds, ?_⟩
          rw [instrs_framed, instrs_under]
          rfl
      · simp only [Bool.false_eq_true, ↓reduceIte] at run
        rw [runs_bind] at run
        obtain ⟨u₂, s₂, statement, run⟩ := run
        obtain rfl := calm_spec run
        obtain ⟨t, code, passage⟩ := reads.statement statement sound settled
        refine ⟨.statement t, code, 0, .statement (passage s.atTop).reads,
          (passage s.atTop).progress, ?_⟩
        intro Γ L later
        obtain ⟨items, emitted, rfl⟩ := (passage s.atTop).emits Γ L later
        exact ⟨items, .statement emitted, rfl⟩

/-- One declaration is read before others. -/
lemma Passage.declare {top : Bool} {s'' : State} {ws mid rest : List Word}
    {d : Stmt .declaration} {ds : Stmt .declarations} {code code' : List Instr} {k k' : Nat}
    (first : Passage top ws mid s s' d code k) (others : Passage top mid rest s' s'' ds code' k') :
    Passage top ws rest s s'' (.declare d ds) (code ++ code') (k' + k) where
  reads := .declare first.reads others.reads
  progress := first.progress.trans others.progress
  emits Γ L later := by
    obtain ⟨items', emitted', rfl⟩ := others.emits Γ L later
    obtain ⟨items, emitted, rfl⟩ := first.emits Γ _ (others.progress.future later)
    rw [List.drop_drop] at emitted
    exact ⟨items ++ items', .declare emitted emitted', instrs_append items items'⟩

theorem declarations_spec (reads : inner.Reads) :
    ∀ {fuel : Nat} {s s' : State} {u : Unit}, Runs (declarations inner fuel) s u s' → s.Sound →
      s.body.Settled → s.words.length ≤ fuel →
      ∃ (ds : Stmt .declarations) (code : List Instr) (k : Nat),
        Passage s.atTop s.words s'.words s s' ds code k := by
  intro fuel
  induction fuel with
  | zero =>
    intro s s' u run sound settled enough
    rw [s.length_words] at enough
    exact absurd enough (Nat.not_succ_le_zero _)
  | succ fuel ih =>
    intro s s' u run sound settled enough
    unfold declarations at run
    rw [runs_bind] at run
    obtain ⟨ends, s₁, checks, run⟩ := run
    obtain ⟨rfl, ends_iff⟩ := atBlockEnd_spec checks
    rcases runs_ite.1 run with ⟨yes, run⟩ | ⟨no, run⟩
    · obtain ⟨-, rfl, -⟩ := runs_pure.1 run
      exact ⟨.noDeclarations, [], 0, .noDeclarations (ends_iff.1 yes), .refl sound, fun Γ L _ =>
        ⟨[], .noDeclarations, rfl⟩⟩
    · rw [runs_bind] at run
      obtain ⟨u₂, s₂, first, run⟩ := run
      obtain ⟨d, code, k, passage⟩ := declaration_spec reads first sound settled
      have shorter := passage.reads.length
      have atTop : s₂.atTop = s.atTop := by
        rw [State.atTop, State.atTop, passage.progress.depth]
      obtain ⟨ds, code', k', passage'⟩ := ih run passage.progress.sound
        (passage.progress.settled settled) (by rw [StmtSort.least] at shorter; omega)
      rw [atTop] at passage'
      exact ⟨.declare d ds, _, _, passage.declare passage'⟩

theorem blockBody_spec (reads : inner.Reads) {u : Unit} (run : Runs (blockBody inner) s u s')
    (sound : s.Sound) (settled : s.body.Settled) (inside : s.body.depth ≠ 0) :
    ∃ (ds : Stmt .declarations) (code : List Instr) (k : Nat),
      Passage false s.words (.mark .rightBrace :: s'.words) s s' ds code k := by
  unfold blockBody at run
  rw [runs_get_bind, runs_bind] at run
  obtain ⟨u₁, s₁, all, run⟩ := run
  obtain ⟨ds, code, k, passage⟩ :=
    declarations_spec reads all sound settled sound.budget_words
  obtain ⟨right, moves⟩ := expect_spec run passage.progress.sound (by decide)
  rw [State.atTop_inner inside] at passage
  refine ⟨ds, code, k, ?_, passage.progress.andMoves moves, fun Γ L later =>
    passage.emits Γ L (moves.progress.future later)⟩
  rw [← moves.mark right rfl]
  exact passage.reads

end Lox.Compile
