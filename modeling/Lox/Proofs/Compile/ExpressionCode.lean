import Lox.Proofs.Compile.Resolution

/-!
# The code of expressions

Reading an expression without a complaint reads the words of a tree and emits the code of that tree
(`operatorsBody_spec`).  The actions for operators after an operand are described with the operand
as a parameter: whatever tree it is and whatever code it has, the action continues both.
-/

namespace Lox.Compile

open Syntax

variable {s s' : State}

/-! ## Phrases -/

/-- An action has read a phrase from the words `ws` and emitted its code. -/
structure Phrase {σ : ExprSort} (g : Goal σ) (ws : List Word) (s s' : State) (e : Expr σ)
    (code : List Instr) : Prop where
  reads : g.Reads ws e s'.words
  progress : Progress s s' code 0
  emits : ∀ Γ L, Future s' Γ L → e.Emits Γ L code

/-- An action has read what continues an operand: it turns the operand `left` into `e`, if operators
may bind as loosely as `least`. -/
structure Continuation (least : Precedence) (ws : List Word) (s s' : State)
    (left e : Expr .expression) (code : List Instr) : Prop where
  reads : ∀ whole rest, (Goal.after least e).Reads s'.words whole rest →
    (Goal.after least left).Reads ws whole rest
  progress : Progress s s' code 0
  emits : ∀ Γ L, Future s' Γ L → ∀ before, left.Emits Γ L before → e.Emits Γ L (before ++ code)

/-- The actions for nested expressions read expressions. -/
def Level.ReadsExpressions (inner : Level) : Prop :=
  ∀ {p : Precedence} {s s' : State} {u : Unit}, Runs (inner.operators p) s u s' → s.Sound →
    ∃ e code, Phrase (.operators p) s.words s s' e code

lemma State.length_words (s : State) : s.words.length = s.rest.length + 1 := by
  rw [words, List.length_map, List.length_cons]

lemma State.Sound.budget_words (sound : s.Sound) : s.words.length ≤ s.budget := by
  rw [s.length_words]
  exact sound.budget

lemma Moves.length (h : Moves s s') : s.words.length = s'.words.length + 1 := by
  rw [h.words, List.length_cons]

section Level

variable {inner : Level} [inner.Careful]

/-! ## Arguments -/

theorem arguments_spec (reads : inner.ReadsExpressions) :
    ∀ {fuel count n : Nat} {s s' : State}, Runs (arguments inner fuel count) s n s' → s.Sound →
      s.words.length ≤ fuel → count ≤ maxArity →
      ∃ args code, Phrase .arguments s.words s s' args code ∧ n = count + args.count ∧
        n ≤ maxArity := by
  intro fuel
  induction fuel with
  | zero =>
    intro count n s s' run sound enough
    rw [s.length_words] at enough
    exact absurd enough (Nat.not_succ_le_zero _)
  | succ fuel ih =>
    intro count n s s' run sound enough fits
    unfold arguments at run
    rw [runs_bind] at run
    obtain ⟨u, s₁, first, run⟩ := run
    obtain ⟨e, code, phrase⟩ := reads first sound
    have shorter := phrase.reads.length
    rcases runs_ite.1 run with ⟨-, run⟩ | ⟨room, run⟩
    · rw [runs_bind] at run
      obtain ⟨u, s₂, complains, -⟩ := run
      exact absurd complains not_runs_complain
    · rcases runs_accept run phrase.progress.sound (by decide) with ⟨comma, s₂, moves, run⟩ | ⟨noComma, run⟩
      · have length := moves.length
        obtain ⟨args, others, phrase', total, fits'⟩ := ih run moves.progress.sound
          (by simp only [Goal.least] at shorter; omega) (by omega)
        refine ⟨.argument e args, code ++ others, ⟨?_, ?_, ?_⟩, ?_, fits'⟩
        · refine .argument ?_ phrase'.reads
          rw [← moves.mark comma rfl]
          exact phrase.reads
        · exact phrase.progress.trans (moves.progress.trans phrase'.progress)
        · intro Γ L later
          refine .argument (phrase.emits Γ L ?_) (phrase'.emits Γ L later)
          exact moves.progress.future (phrase'.progress.future later)
        · rw [total, Expr.count]
          omega
      · obtain ⟨rfl, rfl, -⟩ := runs_pure.1 run
        refine ⟨.lastArgument e, code, ⟨?_, phrase.progress, ?_⟩, rfl, by omega⟩
        · refine .lastArgument phrase.reads ?_
          rw [s₁.nextKind_words]
          exact fun comma => noComma (Option.some.inj comma)
        · exact fun Γ L later => .lastArgument (phrase.emits Γ L later)

theorem argumentList_spec (reads : inner.ReadsExpressions) {n : UInt8}
    (run : Runs (argumentList inner) s n s') (sound : s.Sound) :
    ∃ args code, Phrase .argumentList s.words s s' args code ∧ n = UInt8.ofNat args.count ∧
      args.count ≤ maxArity := by
  unfold argumentList at run
  rw [runs_bind] at run
  obtain ⟨closes, s₁, checks, run⟩ := run
  obtain ⟨rfl, closes_iff⟩ := check_spec checks
  rcases runs_ite.1 run with ⟨yes, run⟩ | ⟨no, run⟩
  · rw [runs_pure_bind] at run
    obtain ⟨current, s₁, moves, run⟩ := runs_expect run sound (by decide)
    obtain ⟨rfl, rfl, -⟩ := runs_pure.1 run
    refine ⟨.noArguments, [], ⟨?_, moves.progress, fun _ _ _ => .noArguments⟩, rfl, Nat.zero_le _⟩
    rw [moves.mark current rfl]
    exact .noArguments
  · rw [runs_get_bind, runs_bind] at run
    obtain ⟨count, s₁, reading, run⟩ := run
    obtain ⟨args, code, phrase, total, fits⟩ :=
      arguments_spec reads reading sound sound.budget_words (Nat.zero_le _)
    obtain ⟨current, s₂, moves, run⟩ := runs_expect run phrase.progress.sound (by decide)
    obtain ⟨rfl, rfl, -⟩ := runs_pure.1 run
    rw [Nat.zero_add] at total
    subst total
    refine ⟨.someArguments args, code, ⟨?_, phrase.progress.andMoves moves, ?_⟩, ?_, fits⟩
    · refine .someArguments ?_
      rw [← moves.mark current rfl]
      exact phrase.reads
    · exact fun Γ L later => .someArguments (phrase.emits Γ L (moves.progress.future later))
    · rw [Nat.min_eq_left fits]
      rfl

/-! ## Operands -/

/-- The kind of the next word, told from the next token. -/
lemma not_next {kind : TokenKind} (h : s.current.kind ≠ kind) : nextKind s.words ≠ some kind := by
  rw [s.nextKind_words]
  exact fun same => h (Option.some.inj same)

lemma not_next_and {c : Bool} {kind : TokenKind} (h : ¬(c = true ∧ s.current.kind = kind)) :
    ¬(c = true ∧ nextKind s.words = some kind) := by
  rw [s.nextKind_words]
  exact fun both => h ⟨both.1, Option.some.inj both.2⟩

theorem variableUse_spec (reads : inner.ReadsExpressions) {ca : Bool} {u : Unit}
    (run : Runs (variableUse inner ca) s u s') (sound : s.Sound) :
    ∃ e code, Phrase (.operand ca) (.name s.previous.lexeme :: s.words) s s' e code := by
  unfold variableUse at run
  rw [runs_get_bind, runs_bind] at run
  obtain ⟨place, s₁, finds, run⟩ := run
  obtain ⟨progress, tokens, -, leads⟩ := access_spec finds sound
  rcases runs_acceptIf run progress.sound (by decide) with ⟨rfl, current, s₂, moves, run⟩ | ⟨ends, run⟩
  · simp only [↓reduceIte] at run
    rw [runs_bind] at run
    obtain ⟨u, s₃, value, emits⟩ := run
    obtain ⟨e, code, phrase⟩ := reads value moves.progress.sound
    obtain ⟨progress', tokens'⟩ := emit_spec emits phrase.progress.sound
    refine ⟨.assign s.previous.lexeme e, code ++ [place.write], ⟨?_, ?_, ?_⟩⟩
    · rw [← tokens.words, moves.mark current rfl, tokens'.words]
      exact .assign phrase.reads
    · exact progress.trans (moves.progress.trans (phrase.progress.trans progress'))
    · intro Γ L later
      have before := progress'.future later
      refine .assign (phrase.emits Γ L before) (leads Γ L ?_)
      exact moves.progress.future (phrase.progress.future before)
  · simp only [Bool.false_eq_true, ↓reduceIte] at run
    obtain ⟨progress', tokens'⟩ := emit_spec run progress.sound
    refine ⟨.name s.previous.lexeme, [place.read], ⟨?_, progress.trans progress', ?_⟩⟩
    · rw [tokens'.words, ← tokens.words]
      exact .name (not_next_and ends)
    · exact fun Γ L later => .name (leads Γ L (progress'.future later))

theorem superAccess_spec (reads : inner.ReadsExpressions) {ca : Bool} {u : Unit}
    (run : Runs (superAccess inner) s u s') (sound : s.Sound) :
    ∃ e code, Phrase (.operand ca) (.mark .kwSuper :: s.words) s s' e code := by
  unfold superAccess at run
  rw [runs_get_bind] at run
  dsimp only at run
  -- Without a superclass around there would be a complaint.
  have inside : s.classes.headD false = true ∧ Runs (do
      expect .dot "'.' after 'super'"
      expect .identifier "superclass method name"
      let name ← stringConstant (← get).previous.lexeme
      readVariable "this"
      if ← accept .leftParen then
        let count ← argumentList inner
        readVariable "super"
        emit (.superInvoke name count)
      else
        readVariable "super"
        emit (.getSuper name)) s u s' := by
    split at run
    · rw [runs_bind] at run
      obtain ⟨u, s₁, complains, -⟩ := run
      exact absurd complains not_runs_complain
    · rw [runs_bind] at run
      obtain ⟨u, s₁, complains, -⟩ := run
      exact absurd complains not_runs_complain
    · next others classes =>
      rw [classes]
      exact ⟨rfl, run⟩
  obtain ⟨known, run⟩ := inside
  obtain ⟨dot, s₁, moves₁, run⟩ := runs_expect run sound (by decide)
  obtain ⟨identifier, s₂, moves₂, run⟩ := runs_expect run moves₁.progress.sound (by decide)
  rw [runs_get_bind, runs_bind] at run
  obtain ⟨index, s₃, makes, run⟩ := run
  obtain ⟨progress₃, tokens₃, named⟩ := stringConstant_spec makes moves₂.progress.sound
  rw [runs_bind] at run
  obtain ⟨u₄, s₄, self, run⟩ := run
  obtain ⟨receiver, progress₄, tokens₄, -, leads₄⟩ := readVariable_spec self progress₃.sound
  have progress : Progress s s₄ [receiver.read] 0 :=
    moves₁.progress.trans (moves₂.progress.trans (progress₃.trans progress₄))
  have words : s.words = .mark .dot :: .name s₂.previous.lexeme :: s₄.words := by
    rw [moves₁.mark dot rfl, moves₂.name identifier, tokens₄.words, tokens₃.words]
  rcases runs_accept run progress₄.sound (by decide) with ⟨paren, s₅, moves₅, run⟩ | ⟨noParen, run⟩
  · simp only [↓reduceIte] at run
    rw [runs_bind] at run
    obtain ⟨n, s₆, list, run⟩ := run
    obtain ⟨args, code, phrase, rfl, fits⟩ := argumentList_spec reads list moves₅.progress.sound
    rw [runs_bind] at run
    obtain ⟨u₇, s₇, home, emits⟩ := run
    obtain ⟨place, progress₇, tokens₇, bound, leads₇⟩ := readVariable_spec home phrase.progress.sound
    obtain ⟨progress₈, tokens₈⟩ := emit_spec emits progress₇.sound
    have all := progress.trans (moves₅.progress.trans
      (phrase.progress.trans (progress₇.trans progress₈)))
    have knows : s₆.Knows "super" := by
      have classes := (progress.trans (moves₅.progress.trans phrase.progress)).classes
      exact phrase.progress.sound.superclass (classes ▸ known)
    refine ⟨.superCall s₂.previous.lexeme args,
      receiver.read :: (code ++ [place.read, .superInvoke index (UInt8.ofNat args.count)]), ⟨?_, ?_, ?_⟩⟩
    · rw [words, moves₅.mark paren rfl, tokens₈.words, tokens₇.words]
      exact .superCall phrase.reads
    · exact all
    · intro Γ L later
      have later₇ := progress₈.future later
      have later₆ := progress₇.future later₇
      have later₄ := moves₅.progress.future (phrase.progress.future later₆)
      exact .superCall (named Γ L (progress₄.future later₄)) (leads₄ Γ L later₄)
        (phrase.emits Γ L later₆) (leads₇ Γ L later₇) (bound knows) fits
  · simp only [Bool.false_eq_true, ↓reduceIte] at run
    rw [runs_bind] at run
    obtain ⟨u₇, s₇, home, emits⟩ := run
    obtain ⟨place, progress₇, tokens₇, bound, leads₇⟩ := readVariable_spec home progress₄.sound
    obtain ⟨progress₈, tokens₈⟩ := emit_spec emits progress₇.sound
    have knows : s₄.Knows "super" := progress₄.sound.superclass (progress.classes ▸ known)
    refine ⟨.superGet s₂.previous.lexeme, [receiver.read, place.read, .getSuper index], ⟨?_, ?_, ?_⟩⟩
    · rw [words, tokens₈.words, tokens₇.words]
      exact .superGet (not_next noParen)
    · exact progress.trans (progress₇.trans progress₈)
    · intro Γ L later
      have later₇ := progress₈.future later
      have later₄ := progress₇.future later₇
      exact .superGet (named Γ L (progress₄.future later₄)) (leads₄ Γ L later₄)
        (leads₇ Γ L later₇) (bound knows)

/-- A token whose kind says it all has the word of that kind. -/
lemma word_of_kind {t : Token} {kind : TokenKind} (h : t.kind = kind)
    (plain : kind.hasText = false) : t.word = .mark kind := by
  rw [Token.word, h, plain]
  rfl

/-- The kinds that start an expression are told by what they start. -/
lemma leading?_cases {kind : TokenKind} {start : Leading} (h : leading? kind = some start) :
    match start with
    | .grouping => kind = .leftParen
    | .unary _ | .literal _ => kind.hasText = false
    | .number => kind = .number
    | .string => kind = .string
    | .name => kind = .identifier
    | .this => kind = .kwThis
    | .super => kind = .kwSuper := by
  cases kind <;> simp only [leading?, reduceCtorEq, Option.some.injEq] at h <;> subst h <;> rfl

theorem readLeading_spec (reads : inner.ReadsExpressions) {ca : Bool} {start : Leading} {u : Unit}
    (run : Runs (readLeading inner ca start) s u s') (sound : s.Sound)
    (word : leading? s.previous.kind = some start) :
    ∃ e code, Phrase (.operand ca) (s.previous.word :: s.words) s s' e code := by
  have kind := leading?_cases word
  cases start with
  | grouping =>
    unfold readLeading at run
    rw [runs_bind] at run
    obtain ⟨u, s₁, first, run⟩ := run
    obtain ⟨e, code, phrase⟩ := reads first sound
    obtain ⟨current, moves⟩ := expect_spec run phrase.progress.sound (by decide)
    refine ⟨.grouping e, code, ⟨?_, phrase.progress.andMoves moves, ?_⟩⟩
    · rw [word_of_kind kind rfl]
      refine .grouping ?_
      rw [← moves.mark current rfl]
      exact phrase.reads
    · exact fun Γ L later => .grouping (phrase.emits Γ L (moves.progress.future later))
  | unary i =>
    unfold readLeading at run
    rw [runs_bind] at run
    obtain ⟨u, s₁, first, run⟩ := run
    obtain ⟨e, code, phrase⟩ := reads first sound
    obtain ⟨progress, tokens⟩ := emit_spec run phrase.progress.sound
    refine ⟨.unary s.previous.kind e, code ++ [i], ⟨?_, phrase.progress.trans progress, ?_⟩⟩
    · rw [word_of_kind rfl kind, tokens.words]
      exact .unary (leading?_unary.1 word) phrase.reads
    · exact fun Γ L later => .unary word (phrase.emits Γ L (progress.future later))
  | number =>
    unfold readLeading at run
    rw [runs_get_bind] at run
    obtain ⟨index, progress, tokens, constant⟩ := emitNumber_spec run sound
    refine ⟨.number s.previous.lexeme, [.constant index], ⟨?_, progress, ?_⟩⟩
    · rw [Token.word, kind, tokens.words]
      exact .number
    · exact fun Γ L later => .number (constant Γ L later)
  | string =>
    unfold readLeading stringLiteral at run
    dsimp only at run
    rw [runs_get_bind] at run
    rcases runs_ite.1 run with ⟨-, run⟩ | ⟨-, run⟩
    case' inr =>
      rw [runs_bind] at run
      obtain ⟨u', s₁, fails, -⟩ := run
      exact absurd fails not_runs_fail
    obtain ⟨index, progress, tokens, constant⟩ := emitString_spec run sound
    refine ⟨.string s.previous.lexeme, [.constant index], ⟨?_, progress, ?_⟩⟩
    · rw [Token.word, kind, tokens.words]
      exact .string
    · exact fun Γ L later => .string (constant Γ L later)
  | literal i =>
    unfold readLeading at run
    obtain ⟨progress, tokens⟩ := emit_spec run sound
    refine ⟨.literal s.previous.kind, [i], ⟨?_, progress, fun _ _ _ => .literal word⟩⟩
    rw [word_of_kind rfl kind, tokens.words]
    exact .literal (leading?_value.1 word)
  | name =>
    unfold readLeading at run
    rw [Token.word, kind]
    exact variableUse_spec reads run sound
  | this =>
    unfold readLeading at run
    rw [runs_get_bind] at run
    rcases runs_ite.1 run with ⟨-, run⟩ | ⟨-, run⟩
    · exact absurd run not_runs_complain
    · rw [runs_get_bind, sound.previous.this kind] at run
      obtain ⟨place, progress, tokens, -, leads⟩ := readVariable_spec run sound
      refine ⟨.this, [place.read], ⟨?_, progress, fun Γ L later => .this (leads Γ L later)⟩⟩
      rw [word_of_kind kind rfl, tokens.words]
      exact .this
  | super =>
    unfold readLeading at run
    rw [word_of_kind kind rfl]
    exact superAccess_spec reads run sound

/-! ## Operators after an operand -/

theorem property_spec (reads : inner.ReadsExpressions) {least : Precedence} {u : Unit}
    (run : Runs (property inner (Goal.canAssign least)) s u s') (sound : s.Sound)
    (binds : least ≤ .call) (left : Expr .expression) :
    ∃ e code, Continuation least (.mark .dot :: s.words) s s' left e code ∧
      s'.words.length ≤ s.words.length := by
  unfold property at run
  obtain ⟨identifier, s₁, moves₁, run⟩ := runs_expect run sound (by decide)
  rw [runs_get_bind, runs_bind] at run
  obtain ⟨index, s₂, makes, run⟩ := run
  obtain ⟨progress₂, tokens₂, named⟩ := stringConstant_spec makes moves₁.progress.sound
  have progress : Progress s s₂ [] 0 := moves₁.progress.trans progress₂
  have words : s.words = .name s₁.previous.lexeme :: s₂.words := by
    rw [moves₁.name identifier, tokens₂.words]
  have shorter : s₂.words.length ≤ s.words.length := by
    rw [words, List.length_cons]
    omega
  rcases runs_acceptIf run progress₂.sound (by decide) with ⟨assigns, equal, s₃, moves₃, run⟩ | ⟨ends, run⟩
  · simp only [↓reduceIte] at run
    rw [runs_bind] at run
    obtain ⟨u₄, s₄, value, emits⟩ := run
    obtain ⟨e, code, phrase⟩ := reads value moves₃.progress.sound
    obtain ⟨progress₅, tokens₅⟩ := emit_spec emits phrase.progress.sound
    have consumed := phrase.reads.length
    refine ⟨.set left s₁.previous.lexeme e, code ++ [Instr.setProperty index], ⟨?_, ?_, ?_⟩, ?_⟩
    · intro whole rest others
      rw [words, moves₃.mark equal rfl]
      rw [tokens₅.words] at others
      exact .set binds assigns phrase.reads others
    · exact progress.trans (moves₃.progress.trans (phrase.progress.trans progress₅))
    · intro Γ L later before emitted
      have later₄ := progress₅.future later
      have later₂ := moves₃.progress.future (phrase.progress.future later₄)
      exact .set emitted (named Γ L later₂) (phrase.emits Γ L later₄)
    · have read := moves₃.length
      rw [tokens₅.words]
      omega
  · simp only [Bool.false_eq_true, ↓reduceIte] at run
    rcases runs_accept run progress₂.sound (by decide) with ⟨paren, s₃, moves₃, run⟩ | ⟨noParen, run⟩
    · simp only [↓reduceIte] at run
      rw [runs_bind] at run
      obtain ⟨n, s₄, list, emits⟩ := run
      obtain ⟨args, code, phrase, rfl, fits⟩ := argumentList_spec reads list moves₃.progress.sound
      obtain ⟨progress₅, tokens₅⟩ := emit_spec emits phrase.progress.sound
      have consumed := phrase.reads.length
      refine ⟨.invoke left s₁.previous.lexeme args,
        code ++ [Instr.invoke index (UInt8.ofNat args.count)], ⟨?_, ?_, ?_⟩, ?_⟩
      · intro whole rest others
        rw [words, moves₃.mark paren rfl]
        rw [tokens₅.words] at others
        exact .invoke binds phrase.reads others
      · exact progress.trans (moves₃.progress.trans (phrase.progress.trans progress₅))
      · intro Γ L later before emitted
        have later₄ := progress₅.future later
        have later₂ := moves₃.progress.future (phrase.progress.future later₄)
        exact .invoke emitted (named Γ L later₂) (phrase.emits Γ L later₄) fits
      · have read := moves₃.length
        rw [tokens₅.words]
        omega
    · simp only [Bool.false_eq_true, ↓reduceIte] at run
      obtain ⟨progress₃, tokens₃⟩ := emit_spec run progress₂.sound
      refine ⟨.get left s₁.previous.lexeme, [.getProperty index], ⟨?_, ?_, ?_⟩, ?_⟩
      · intro whole rest others
        rw [words]
        rw [tokens₃.words] at others
        exact .get binds (not_next_and ends) (not_next noParen) others
      · exact progress.trans progress₃
      · exact fun Γ L later before emitted => .get emitted (named Γ L (progress₃.future later))
      · rw [tokens₃.words]
        exact shorter

/-- The kinds that continue an operand are told by what they continue. -/
lemma trailing?_cases {kind : TokenKind} {p : Precedence} {operator : Trailing}
    (h : trailing? kind = some (p, operator)) :
    match operator with
    | .call => kind = .leftParen ∧ p = .call
    | .property => kind = .dot ∧ p = .call
    | .binary _ => kind.hasText = false
    | .and => kind = .kwAnd ∧ p = .and
    | .or => kind = .kwOr ∧ p = .or := by
  cases kind <;>
    simp only [trailing?, reduceCtorEq, Option.some.injEq, Prod.mk.injEq] at h <;>
    obtain ⟨rfl, rfl⟩ := h <;>
    simp only [TokenKind.hasText, and_self]

/-- A site after instructions that are as long and as many is the same. -/
lemma siteAfter_jump (is : List Instr) {jump : UInt16 → Instr} (forward : IsJump jump)
    (d d' : UInt16) : siteAfter (is ++ [jump d]) = siteAfter (is ++ [jump d']) := by
  simp only [siteAfter, List.length_append, List.length_cons, codeSize_append, codeSize_cons,
    forward.size]

theorem readTrailing_spec (reads : inner.ReadsExpressions) {least p : Precedence}
    {operator : Trailing} {u : Unit}
    (run : Runs (readTrailing inner (Goal.canAssign least) p operator) s u s') (sound : s.Sound)
    (word : trailing? s.previous.kind = some (p, operator)) (binds : least ≤ p)
    (left : Expr .expression) :
    ∃ e code, Continuation least (s.previous.word :: s.words) s s' left e code ∧
      s'.words.length ≤ s.words.length := by
  have kind := trailing?_cases word
  cases operator with
  | call =>
    obtain ⟨kind, rfl⟩ := kind
    unfold readTrailing at run
    rw [runs_bind] at run
    obtain ⟨n, s₁, list, run⟩ := run
    obtain ⟨args, code, phrase, rfl, fits⟩ := argumentList_spec reads list sound
    obtain ⟨progress, tokens⟩ := emit_spec run phrase.progress.sound
    have consumed := phrase.reads.length
    refine ⟨.call left args, code ++ [.call (UInt8.ofNat args.count)],
      ⟨?_, phrase.progress.trans progress, ?_⟩, ?_⟩
    · intro whole rest others
      rw [tokens.words] at others
      rw [word_of_kind kind rfl]
      exact .call binds phrase.reads others
    · exact fun Γ L later before emitted =>
        .call emitted (phrase.emits Γ L (progress.future later)) fits
    · rw [tokens.words]
      omega
  | property =>
    obtain ⟨kind, rfl⟩ := kind
    unfold readTrailing at run
    rw [word_of_kind kind rfl]
    exact property_spec reads run sound binds left
  | binary is =>
    unfold readTrailing at run
    rw [runs_bind] at run
    obtain ⟨u, s₁, second, run⟩ := run
    obtain ⟨right, code, phrase⟩ := reads second sound
    obtain ⟨progress, tokens⟩ := emitAll_spec run phrase.progress.sound
    have consumed := phrase.reads.length
    refine ⟨.binary s.previous.kind left right, code ++ is,
      ⟨?_, phrase.progress.trans progress, ?_⟩, ?_⟩
    · intro whole rest others
      rw [tokens.words] at others
      rw [word_of_kind rfl kind]
      exact .binary (trailing?_binary.1 word) binds phrase.reads others
    · exact fun Γ L later before emitted =>
        .binary word emitted (phrase.emits Γ L (progress.future later))
    · rw [tokens.words]
      omega
  | and =>
    obtain ⟨kind, rfl⟩ := kind
    unfold readTrailing at run
    rw [runs_bind] at run
    obtain ⟨site, s₁, jumps, run⟩ := run
    obtain ⟨rfl, progress₁, tokens₁⟩ := emitJump_spec jumps sound fun _ => rfl
    rw [runs_bind] at run
    obtain ⟨u₂, s₂, pops, run⟩ := run
    obtain ⟨progress₂, tokens₂⟩ := emit_spec pops progress₁.sound
    rw [runs_bind] at run
    obtain ⟨u₃, s₃, second, run⟩ := run
    obtain ⟨right, code, phrase⟩ := reads second progress₂.sound
    have waiting : Progress s s₃ ([] ++ .jumpIfFalse 0xffff :: (.pop :: code)) 0 :=
      progress₁.trans (progress₂.trans phrase.progress)
    rw [← List.append_nil s.body.instrs] at run
    obtain ⟨progress, fits, tokens, future⟩ := waiting.land .jumpIfFalse run
    have size : codeSize (.pop :: code) = codeSize code + 1 := by
      rw [codeSize_cons, Instr.size]
      omega
    rw [size] at progress fits
    have words : s₂.words = s.words := by rw [tokens₂.words, tokens₁.words]
    have consumed := phrase.reads.length
    rw [words] at consumed
    refine ⟨.and left right, _, ⟨?_, progress, ?_⟩, ?_⟩
    · intro whole rest others
      rw [tokens.words] at others
      rw [word_of_kind kind rfl, ← words]
      exact .and binds phrase.reads others
    · exact fun Γ L later before emitted =>
        .and emitted (phrase.emits Γ L (future Γ L later)) fits
    · rw [tokens.words]
      omega
  | or =>
    obtain ⟨kind, rfl⟩ := kind
    unfold readTrailing at run
    rw [runs_bind] at run
    obtain ⟨site₁, s₁, jumps₁, run⟩ := run
    obtain ⟨rfl, progress₁, tokens₁⟩ := emitJump_spec jumps₁ sound fun _ => rfl
    rw [runs_bind] at run
    obtain ⟨site₂, s₂, jumps₂, run⟩ := run
    obtain ⟨rfl, progress₂, tokens₂⟩ := emitJump_spec jumps₂ progress₁.sound fun _ => rfl
    rw [runs_bind] at run
    obtain ⟨u₃, s₃, lands, run⟩ := run
    have waiting : Progress s s₂ ([] ++ Instr.jumpIfFalse 0xffff :: [Instr.jump 0xffff]) 0 :=
      progress₁.trans progress₂
    have site : siteAfter s₁.body.instrs = siteAfter (s.body.instrs ++ [Instr.jumpIfFalse 3]) := by
      rw [progress₁.instrs]
      exact siteAfter_jump _ .jumpIfFalse _ _
    rw [← List.append_nil s.body.instrs] at lands
    obtain ⟨progress₃, -, tokens₃, -⟩ := waiting.land .jumpIfFalse lands
    rw [runs_bind] at run
    obtain ⟨u₄, s₄, pops, run⟩ := run
    obtain ⟨progress₄, tokens₄⟩ := emit_spec pops progress₃.sound
    rw [runs_bind] at run
    obtain ⟨u₅, s₅, second, run⟩ := run
    obtain ⟨right, code, phrase⟩ := reads second progress₄.sound
    have waiting : Progress s s₅ ([Instr.jumpIfFalse 3] ++ .jump 0xffff :: (.pop :: code)) 0 :=
      progress₃.trans (progress₄.trans phrase.progress)
    rw [site] at run
    obtain ⟨progress, fits, tokens, future⟩ := waiting.land .jump run
    have size : codeSize (.pop :: code) = codeSize code + 1 := by
      rw [codeSize_cons, Instr.size]
      omega
    rw [size] at progress fits
    have words : s₄.words = s.words := by
      rw [tokens₄.words, tokens₃.words, tokens₂.words, tokens₁.words]
    have consumed := phrase.reads.length
    rw [words] at consumed
    refine ⟨.or left right, _, ⟨?_, progress, ?_⟩, ?_⟩
    · intro whole rest others
      rw [tokens.words] at others
      rw [word_of_kind kind rfl, ← words]
      exact .or binds phrase.reads others
    · exact fun Γ L later before emitted =>
        .or emitted (phrase.emits Γ L (future Γ L later)) fits
    · rw [tokens.words]
      omega

theorem trailingOperators_spec (reads : inner.ReadsExpressions) {least : Precedence} :
    ∀ {fuel : Nat} {s s' : State} {u : Unit},
      Runs (trailingOperators inner least (Goal.canAssign least) fuel) s u s' → s.Sound →
      s.words.length ≤ fuel → ∀ left : Expr .expression,
      ∃ e code, (Goal.after least left).Reads s.words e s'.words ∧ Progress s s' code 0 ∧
        ∀ Γ L, Future s' Γ L → ∀ before, left.Emits Γ L before → e.Emits Γ L (before ++ code) := by
  intro fuel
  induction fuel with
  | zero =>
    intro s s' u run sound enough
    rw [s.length_words] at enough
    exact absurd enough (Nat.not_succ_le_zero _)
  | succ fuel ih =>
    intro s s' u run sound enough left
    unfold trailingOperators at run
    rw [runs_get_bind] at run
    have finished : ¬Continues least s.words → s = s' →
        ∃ e code, (Goal.after least left).Reads s.words e s'.words ∧ Progress s s' code 0 ∧
          ∀ Γ L, Future s' Γ L → ∀ before, left.Emits Γ L before →
            e.Emits Γ L (before ++ code) := by
      rintro ends rfl
      refine ⟨left, [], .done ends, .refl sound, fun Γ L _ before emitted => ?_⟩
      rw [List.append_nil]
      exact emitted
    cases word : trailing? s.current.kind with
    | none =>
      simp only [word] at run
      obtain ⟨-, same, -⟩ := runs_pure.1 run
      refine finished ?_ same
      rintro ⟨kind, p, next, continues, -⟩
      obtain rfl : s.current.kind = kind := Option.some.inj next
      rw [← trailing?_binding, word] at continues
      exact nomatch continues
    | some entry =>
      obtain ⟨p, operator⟩ := entry
      simp only [word] at run
      rcases runs_ite.1 run with ⟨binds, run⟩ | ⟨loose, run⟩
      · rw [runs_bind] at run
        obtain ⟨u₁, s₁, advances, run⟩ := run
        have more : s.current.kind ≠ .endOfInput := by
          intro finished
          rw [finished] at word
          simp only [trailing?, reduceCtorEq] at word
        have moves := advance_spec advances sound more
        rw [runs_bind] at run
        obtain ⟨u₂, s₂, continues, run⟩ := run
        obtain ⟨middle, code, continuation, shorter⟩ := readTrailing_spec reads continues
          moves.progress.sound (moves.previous ▸ word) binds left
        have length := moves.length
        obtain ⟨e, others, reading, progress, emits⟩ :=
          ih run continuation.progress.sound (by omega) middle
        refine ⟨e, code ++ others, ?_, ?_, ?_⟩
        · rw [moves.words, ← moves.previous]
          exact continuation.reads e _ reading
        · exact moves.progress.trans (continuation.progress.trans progress)
        · intro Γ L later before emitted
          rw [← List.append_assoc]
          exact emits Γ L later _
            (continuation.emits Γ L (progress.future later) before emitted)
      · obtain ⟨-, same, -⟩ := runs_pure.1 run
        refine finished ?_ same
        rintro ⟨kind, p', next, continues, binds⟩
        obtain rfl : s.current.kind = kind := Option.some.inj next
        obtain rfl := Option.some.inj ((binding?_of_trailing word).symm.trans continues)
        exact loose binds

/-! ## Expressions -/

/-- Reading an expression without a complaint reads a tree and emits its code. -/
theorem operatorsBody_spec (reads : inner.ReadsExpressions) {least : Precedence} {u : Unit}
    (run : Runs (operatorsBody inner least) s u s') (sound : s.Sound) :
    ∃ e code, Phrase (.operators least) s.words s s' e code := by
  unfold operatorsBody at run
  rw [@runs_bind _ _ _ _ _ (fun _ => follows_bind inferInstance fun s₁ => by
    cases leading? s₁.previous.kind <;> infer_instance)] at run
  obtain ⟨u₁, s₁, advances, run⟩ := run
  rw [runs_get_bind] at run
  rcases advance_cases advances sound with moves | ⟨finished, rfl⟩
  · cases word : leading? s₁.previous.kind with
    | none =>
      simp only [word] at run
      exact absurd run not_runs_complain
    | some start =>
      simp only [word] at run
      rw [runs_bind] at run
      obtain ⟨u₂, s₂, starts, run⟩ := run
      obtain ⟨first, code, phrase⟩ := readLeading_spec reads starts moves.progress.sound word
      rw [runs_get_bind, runs_bind] at run
      obtain ⟨u₃, s₃, continues, run⟩ := run
      obtain ⟨e, others, reading, progress, emits⟩ := trailingOperators_spec reads continues
        phrase.progress.sound phrase.progress.sound.budget_words first
      have same : s₃ = s' := by
        rcases runs_acceptIf run progress.sound (by decide) with ⟨-, -, s₄, -, run⟩ | ⟨-, run⟩
        · exact absurd run not_runs_complain
        · exact (runs_pure.1 run).2.1
      subst same
      refine ⟨e, code ++ others, ⟨?_, ?_, ?_⟩⟩
      · rw [moves.words, ← moves.previous]
        exact .operators phrase.reads reading
      · exact moves.progress.trans (phrase.progress.trans progress)
      · exact fun Γ L later => emits Γ L later code (phrase.emits Γ L (progress.future later))
  · -- At the end of the source there is no expression.
    rw [finished] at run
    exact absurd run not_runs_complain

end Level

end Lox.Compile
