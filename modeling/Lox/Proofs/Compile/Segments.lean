import Lox.Proofs.Compile.Mirroring
import Lox.Proofs.Compile.Order

/-!
# Sources of segments

Expressions are read alike in a source and apart (`mirrors_level`), and so are the declarations and
print statements made of them (`mirrors_declaration`).  Panicking ends with the segment it started
in.  So in a source of segments each one is complained of as if it stood alone
(`compile_segments`).
-/

namespace Lox.Compile

open Syntax

variable {α : Type} {σ : Setting} {s t : State} {stage : Stage}

/-! ## Expressions -/

/-- Expressions inside of one are read alike. -/
def Level.Mirrors (σ : Setting) (inner : Level) : Prop :=
  ∀ p s t, σ.At .within s t → Compile.Mirrors (inner.operators p) (inner.operators p) s t (σ.To .ready)

/-- What is read next is no further ahead. -/
lemma Mirrors.onward {act : Compiling α} {Q : α → α → State → State → Prop} [Follows Onward act]
    (h : Mirrors act act s t Q) : Mirrors act act s t fun a b s' t' =>
      Q a b s' t' ∧ s'.rest.length ≤ s.rest.length ∧ t'.rest.length ≤ t.rest.length :=
  ⟨h, (Compile.onward act s).le, (Compile.onward act t).le⟩

section Phrases

variable {inner : Level} (mirrors : inner.Mirrors σ)

include mirrors

lemma mirrors_expression (h : σ.At .within s t) :
    Mirrors inner.expression inner.expression s t (σ.To .ready) :=
  mirrors _ s t h

lemma mirrors_arguments [inner.Follows Onward] (fuel : Nat) : ∀ (fuel' count : Nat) (s t : State),
    s.rest.length < fuel → t.rest.length < fuel' → σ.At .within s t →
    Mirrors (arguments inner fuel count) (arguments inner fuel' count) s t (σ.To .ready) := by
  induction fuel with
  | zero => exact fun _ _ _ _ short => absurd short (Nat.not_lt_zero _)
  | succ fuel ih =>
    intro fuel' count s t short short' h
    obtain ⟨fuel', rfl⟩ := Nat.exists_eq_succ_of_ne_zero (Nat.ne_of_gt (Nat.zero_lt_of_lt short'))
    have more : ∀ s t, s.rest.length < fuel + 1 → t.rest.length < fuel' + 1 → σ.At .ready s t →
        Mirrors (accept .comma >>= fun more => if more then arguments inner fuel (count + 1) else pure (count + 1))
          (accept .comma >>= fun more => if more then arguments inner fuel' (count + 1) else pure (count + 1))
          s t (σ.To .ready) := by
      intro s t short short' h
      refine (mirrors_accept h (.inr rfl) (by decide) (by decide)).bind fun b b' s' t' ⟨same, found, missing⟩ => ?_
      subst same
      cases b' with
      | false => exact mirrors_pure _ _ (missing rfl)
      | true =>
        obtain ⟨within, nearer⟩ := found rfl
        exact ih fuel' (count + 1) s' t' (Nat.lt_of_lt_of_le nearer.here (Nat.le_of_lt_succ short))
          (Nat.lt_of_lt_of_le nearer.apart (Nat.le_of_lt_succ short')) within
    unfold arguments
    refine (mirrors_expression mirrors h).onward.bind fun _ _ s₁ t₁ ⟨h, less, less'⟩ => ?_
    have short₁ := Nat.lt_of_le_of_lt less short
    have short₁' := Nat.lt_of_le_of_lt less' short'
    by_cases many : count = maxArity
    · rw [if_pos many, if_pos many]
      refine (mirrors_complain _ h).onward.bind fun _ _ s₂ t₂ ⟨h, less, less'⟩ => ?_
      exact more s₂ t₂ (Nat.lt_of_le_of_lt less short₁) (Nat.lt_of_le_of_lt less' short₁') h
    · rw [if_neg many, if_neg many]
      exact more s₁ t₁ short₁ short₁' h

variable [inner.Follows Onward]

/-- The number of arguments does not matter to the size of a call. -/
lemma mirrors_argumentList (h : σ.At .within s t) :
    Mirrors (argumentList inner) (argumentList inner) s t (σ.To .ready) := by
  unfold argumentList
  refine Mirrors.bind (mirrors_check h (.inl rfl) (by decide : ¬Opens .rightParen)) fun b b' s t ⟨same, h⟩ => ?_
  subst same
  have rest : ∀ {count count' : Nat} {s t}, σ.At .ready s t → Mirrors
      (expect .rightParen "')' after arguments" >>= fun _ => pure (UInt8.ofNat (min count maxArity)))
      (expect .rightParen "')' after arguments" >>= fun _ => pure (UInt8.ofNat (min count' maxArity)))
      s t (σ.To .ready) := fun h =>
    (mirrors_expect h (.inr rfl) (by decide) (by decide)).bind fun _ _ _ _ h => mirrors_pure _ _ h
  cases b' with
  | true => exact rest h.ready
  | false =>
    have reads : Mirrors (arguments inner s.budget 0) (arguments inner t.budget 0) s t (σ.To .ready) :=
      mirrors_arguments mirrors _ _ _ _ _ h.alike.budget h.alike.budget_apart h
    exact reads.bind fun _ _ _ _ h => rest h

omit [inner.Follows Onward] in
lemma mirrors_variableUse (canAssign : Bool) (h : σ.At .within s t) :
    Mirrors (variableUse inner canAssign) (variableUse inner canAssign) s t (σ.To .ready) := by
  unfold variableUse
  refine mirrors_get ?_
  rw [h.alike.previous]
  refine (mirrors_access _ h).bind fun place place' s t h => ?_
  refine mirrors_assigns canAssign h (.inl rfl) (fun s t h => ?_) fun s t h => ?_
  · refine (mirrors_expression mirrors h).bind fun _ _ s t h => ?_
    exact mirrors_emit (place'.size_write.trans place.size_write.symm) h
  · exact mirrors_emit (place'.size_read.trans place.size_read.symm) h.ready

lemma mirrors_property (canAssign : Bool) (h : σ.At .within s t) :
    Mirrors (property inner canAssign) (property inner canAssign) s t (σ.To .ready) := by
  unfold property
  refine (mirrors_expect h (.inl rfl) (by decide) (by decide)).bind fun _ _ s t h => mirrors_get ?_
  rw [h.alike.previous]
  refine (mirrors_stringConstant _ h).bind fun name name' s t h => ?_
  refine mirrors_assigns canAssign h (.inl rfl) (fun s t h => ?_) fun s t h => ?_
  · exact (mirrors_expression mirrors h).bind fun _ _ _ _ h => mirrors_emit rfl h
  · refine (mirrors_chooses h (.inl rfl) (by decide) (by decide)).pick (fun s t h => ?_) fun s t h => ?_
    · exact (mirrors_argumentList mirrors h).bind fun _ _ _ _ h => mirrors_emit rfl h
    · exact mirrors_emit rfl h.ready

/-- There is no superclass outside of classes. -/
lemma mirrors_superAccess (h : σ.At .within s t) :
    Mirrors (superAccess inner) (superAccess inner) s t (σ.To .ready) := by
  unfold superAccess
  refine mirrors_get ?_
  rw [h.alike.top.classes, h.alike.top_apart.classes]
  refine (mirrors_complain _ h).bind fun _ _ s t h => ?_
  refine (mirrors_expect h (.inl rfl) (by decide) (by decide)).bind fun _ _ s t h => ?_
  refine (mirrors_expect h (.inl rfl) (by decide) (by decide)).bind fun _ _ s t h => mirrors_get ?_
  rw [h.alike.previous]
  refine (mirrors_stringConstant _ h).bind fun name name' s t h => ?_
  refine (mirrors_readVariable _ h).bind fun _ _ s t h => ?_
  refine (mirrors_chooses h (.inl rfl) (by decide) (by decide)).pick (fun s t h => ?_) fun s t h => ?_
  · refine (mirrors_argumentList mirrors h).bind fun count count' s t h => ?_
    exact (mirrors_readVariable _ h).bind fun _ _ _ _ h => mirrors_emit rfl h
  · exact (mirrors_readVariable _ h).bind fun _ _ _ _ h => mirrors_emit rfl h.ready

omit mirrors in
lemma mirrors_stringLiteral (h : σ.At .within s t) :
    Mirrors stringLiteral stringLiteral s t (σ.To .within) := by
  unfold stringLiteral
  refine mirrors_get ?_
  rw [h.alike.previous]
  have literal : ∀ {s' t'}, σ.At .within s' t' → Mirrors
      (internString (unquote s.previous.lexeme) >>= fun object => emitConstant (.string object))
      (internString (unquote s.previous.lexeme) >>= fun object => emitConstant (.string object)) s' t'
      (σ.To .within) := fun h =>
    (mirrors_internString _ h).bind fun o o' _ _ ⟨own, own', h⟩ =>
      mirrors_emitConstant (congrArg Literal.string (own'.trans own.symm)) trivial h
  exact mirrors_ite Iff.rfl (literal h) ((mirrors_fail _ h).bind fun _ _ _ _ h => literal h)

lemma mirrors_readLeading (canAssign : Bool) (start : Leading) (h : σ.At .within s t) :
    Mirrors (readLeading inner canAssign start) (readLeading inner canAssign start) s t (σ.To .ready) := by
  cases start with
  | grouping =>
    exact (mirrors_expression mirrors h).bind fun _ _ _ _ h => mirrors_expect h (.inr rfl) (by decide) (by decide)
  | unary i => exact (mirrors _ _ _ h).bind fun _ _ _ _ h => mirrors_emit rfl h
  | number =>
    refine mirrors_get ?_
    rw [h.alike.previous]
    exact (mirrors_emitConstant (c := .number (Decimal.read s.previous.lexeme)) rfl ⟨_, rfl⟩ h).ready
  | string => exact (mirrors_stringLiteral h).ready
  | literal i => exact (mirrors_emit rfl h).ready
  | name => exact mirrors_variableUse mirrors canAssign h
  | this =>
    refine mirrors_get ?_
    rw [h.alike.top.classes, h.alike.top_apart.classes]
    exact (mirrors_complain _ h).ready
  | super => exact mirrors_superAccess mirrors h

lemma mirrors_readTrailing (canAssign : Bool) (p : Precedence) (operator : Trailing) (h : σ.At .within s t) :
    Mirrors (readTrailing inner canAssign p operator) (readTrailing inner canAssign p operator) s t
      (σ.To .ready) := by
  cases operator with
  | call => exact (mirrors_argumentList mirrors h).bind fun _ _ _ _ h => mirrors_emit rfl h
  | property => exact mirrors_property mirrors canAssign h
  | binary is =>
    refine (mirrors _ _ _ h).bind fun _ _ s t h => ?_
    clear mirrors
    induction is generalizing s t with
    | nil => exact h
    | cons i is ih => exact (mirrors_emit rfl h).bind fun _ _ s t h => ih s t h
  | and =>
    refine (mirrors_emitJump h).bind fun stop stop' s t ⟨starts, h⟩ => ?_
    refine (mirrors_emit rfl h).bind fun _ _ s t h => (mirrors _ _ _ h).bind fun _ _ s t h => ?_
    exact mirrors_land starts h
  | or =>
    refine (mirrors_emitJump h).bind fun right right' s t ⟨rights, h⟩ => ?_
    refine (mirrors_emitJump h).bind fun stop stop' s t ⟨stops, h⟩ => ?_
    refine (mirrors_land rights h).bind fun _ _ s t h => (mirrors_emit rfl h).bind fun _ _ s t h => ?_
    exact (mirrors _ _ _ h).bind fun _ _ s t h => mirrors_land stops h

lemma mirrors_trailingOperators (least : Precedence) (canAssign : Bool) (fuel : Nat) :
    ∀ (fuel' : Nat) (s t : State), s.rest.length < fuel → t.rest.length < fuel' → σ.At .ready s t →
    Mirrors (trailingOperators inner least canAssign fuel) (trailingOperators inner least canAssign fuel') s t
      (σ.To .ready) := by
  induction fuel with
  | zero => exact fun _ _ _ short => absurd short (Nat.not_lt_zero _)
  | succ fuel ih =>
    intro fuel' s t short short' h
    obtain ⟨fuel', rfl⟩ := Nat.exists_eq_succ_of_ne_zero (Nat.ne_of_gt (Nat.zero_lt_of_lt short'))
    unfold trailingOperators
    refine mirrors_get ?_
    rw [h.trailing]
    cases word : trailing? s.current.kind with
    | none => exact h
    | some found =>
      obtain ⟨precedence, operator⟩ := found
      refine mirrors_ite Iff.rfl ?_ h
      have within : σ.At .within s t := h.found (.inr rfl) (trailing_inside word) rfl
      refine (mirrors_next within (trailing_going word)).bind fun _ _ s₁ t₁ ⟨h, nearer⟩ => ?_
      refine (mirrors_readTrailing mirrors canAssign precedence operator h).onward.bind
        fun _ _ s₂ t₂ ⟨h, less, less'⟩ => ?_
      exact ih fuel' s₂ t₂
        (Nat.lt_of_le_of_lt less (Nat.lt_of_lt_of_le nearer.here (Nat.le_of_lt_succ short)))
        (Nat.lt_of_le_of_lt less' (Nat.lt_of_lt_of_le nearer.apart (Nat.le_of_lt_succ short'))) h

lemma mirrors_operatorsBody (least : Precedence) (h : σ.At .within s t) :
    Mirrors (operatorsBody inner least) (operatorsBody inner least) s t (σ.To .ready) := by
  unfold operatorsBody
  refine (mirrors_advance h).bind fun _ _ s t moved => mirrors_get ?_
  have h := moved.anywhere
  dsimp only
  rw [h.alike.previous]
  cases word : leading? s.previous.kind with
  | none =>
    show σ.At .ready (s.complainOf s.previous _) (t.complainOf t.previous _)
    rw [h.alike.previous]
    exact h.panic _ _
  | some start =>
    have within : σ.At .within s t := h.within (leading_going word)
    refine (mirrors_readLeading mirrors _ start within).bind fun _ _ s t h => mirrors_get ?_
    refine Mirrors.bind (mirrors_trailingOperators mirrors _ _ _ _ _ _ h.alike.budget h.alike.budget_apart h)
      fun _ _ s t h => ?_
    exact mirrors_assigns _ h (.inr rfl) (fun s t h => mirrors_complain _ h.ready) fun s t h => h

end Phrases

lemma mirrors_refuseNesting (h : σ.At .within s t) :
    Mirrors refuseNesting refuseNesting s t (σ.To .ready) := by
  have panics : Panics (complainHere .tooDeep s).2 (complainHere .tooDeep t).2 :=
    ⟨s.panicking_complainOf _ _, t.panicking_complainOf _ _⟩
  have complained : σ.At .within (complainHere .tooDeep s).2 (complainHere .tooDeep t).2 :=
    mirrors_complainHere _ h (.inl rfl)
  have moved : σ.Moved _ _ (refuseNesting s).2 (refuseNesting t).2 := mirrors_advance complained
  exact ⟨moved.anywhere.1, moved.anywhere.2.imp_right fun beyond => ⟨beyond, moved.panics panics⟩⟩

lemma mirrors_level (σ : Setting) (n : Nat) : (level n).Mirrors σ := by
  induction n with
  | zero => exact fun _ _ _ h => mirrors_refuseNesting h
  | succ n ih => exact fun p _ _ h => mirrors_operatorsBody ih p h

/-! ## Declarations -/

lemma mirrors_declareVariable (h : σ.At stage s t) :
    Mirrors declareVariable declareVariable s t (σ.To stage) := by
  unfold declareVariable
  refine mirrors_get ?_
  rw [if_pos h.alike.top.depth, if_pos h.alike.top_apart.depth]
  exact h

lemma mirrors_parseVariable (what : String) (h : σ.At .within s t) :
    Mirrors (parseVariable what) (parseVariable what) s t (σ.To .within) := by
  unfold parseVariable
  refine (mirrors_expect h (.inl rfl) (by decide) (by decide)).bind fun _ _ s t h => ?_
  refine (mirrors_declareVariable h).bind fun _ _ s t h => mirrors_get ?_
  rw [if_pos h.alike.top.depth, if_pos h.alike.top_apart.depth, h.alike.previous]
  exact mirrors_stringConstant _ h

lemma mirrors_defineVariable (constant constant' : UInt8) (h : σ.At stage s t) :
    Mirrors (defineVariable constant) (defineVariable constant') s t (σ.To stage) := by
  unfold defineVariable
  refine mirrors_get ?_
  rw [if_pos h.alike.top.depth, if_pos h.alike.top_apart.depth]
  exact mirrors_emit rfl h

section Declarations

variable {inner : Level} (mirrors : inner.Mirrors σ)

include mirrors

lemma mirrors_variableDeclaration (h : σ.At .within s t) :
    Mirrors (variableDeclaration inner) (variableDeclaration inner) s t (σ.To .done) := by
  unfold variableDeclaration
  refine (mirrors_parseVariable _ h).bind fun constant constant' s t h => ?_
  have ends : ∀ {s t}, σ.At .ready s t → Mirrors
      (expect .semicolon "';' after variable declaration" >>= fun _ => defineVariable constant)
      (expect .semicolon "';' after variable declaration" >>= fun _ => defineVariable constant') s t
      (σ.To .done) := fun h =>
    (mirrors_semicolon h).bind fun _ _ _ _ h => mirrors_defineVariable _ _ h
  refine (mirrors_chooses h (.inl rfl) (by decide) (by decide)).pick (fun s t h => ?_) fun s t h => ?_
  · exact (mirrors_expression mirrors h).bind fun _ _ _ _ h => ends h
  · exact (mirrors_emit rfl h).bind fun _ _ _ _ h => ends h.ready

lemma mirrors_printStatement (h : σ.At .within s t) :
    Mirrors (printStatement inner) (printStatement inner) s t (σ.To .done) := by
  unfold printStatement
  refine (mirrors_expression mirrors h).bind fun _ _ s t h => ?_
  exact (mirrors_semicolon h).bind fun _ _ _ _ h => mirrors_emit rfl h

end Declarations

/-! ## Going on after a segment -/

/-- Stops panicking at the end of a declaration. -/
abbrev calmDown : Compiling Unit := do
  if (← get).panicking then synchronize

lemma skip_ended {fuel : Nat} (ended : s.previous.kind = .semicolon) (positive : 0 < fuel) :
    skipToStatement fuel s = ((), s) := by
  obtain ⟨fuel, rfl⟩ := Nat.exists_eq_succ_of_ne_zero (Nat.ne_of_gt positive)
  unfold skipToStatement
  show (if _ then _ else _ : Compiling Unit) s = _
  rw [if_pos (by simp [ended])]
  rfl

/-- No token of a segment stops the search for the next statement. -/
lemma Remains.skipped {t : Token} {ts : List Token} (h : Remains (t :: ts)) :
    t.kind ≠ .endOfInput ∧ startsStatement t.kind = false := by
  cases h with
  | last ends => rw [ends]; decide
  | more plain =>
    refine ⟨fun is => plain (by rw [is]; decide), ?_⟩
    by_contra starts
    refine plain ?_
    generalize t.kind = kind at starts
    cases kind with
    | malformed fault => exact absurd rfl starts
    | _ => first | decide | exact absurd rfl starts

lemma skip_remains_step {fuel : Nat} {ts : List Token} (remains : Remains (s.current :: ts))
    (started : s.previous.kind ≠ .semicolon) :
    skipToStatement (fuel + 1) s = skipToStatement fuel (advance s).2 := by
  obtain ⟨before, going⟩ := remains.skipped
  conv_lhs => unfold skipToStatement
  show (if _ then _ else _ : Compiling Unit) s = _
  rw [if_neg (by simp [before, started, going])]
  rfl

/-- Panicking skips the rest of the segment and nothing after it. -/
lemma skip_remains {next : Token} {later : List Token} (opens : Opens next.kind) (ts : List Token) :
    ∀ (fuel : Nat) (s : State), Remains (s.current :: ts) → s.rest = ts ++ next :: later →
      s.previous.kind ≠ .semicolon → s.rest.length < fuel → ∃ token : Token,
        (skipToStatement fuel s).2 = { s with previous := token, current := next, rest := later } := by
  induction ts with
  | nil =>
    intro fuel s remains rest started short
    have last : s.current.kind = .semicolon := by
      cases remains with
      | last ends => exact ends
      | more _ nothing => exact nomatch nothing
    rw [rest, List.nil_append, List.length_cons] at short
    obtain ⟨fuel, rfl⟩ : ∃ n, fuel = n + 1 + 1 := ⟨fuel - 2, by omega⟩
    rw [skip_remains_step remains started, advance_proper rest opens.proper, skip_ended last (Nat.succ_pos _)]
    exact ⟨_, rfl⟩
  | cons t ts ih =>
    intro fuel s remains rest started short
    obtain ⟨plain, more⟩ : Plain s.current.kind ∧ Remains (t :: ts) := by
      cases remains with
      | more plain more => exact ⟨plain, more⟩
    rw [rest, List.cons_append, List.length_cons] at short
    obtain ⟨fuel, rfl⟩ : ∃ n, fuel = n + 1 := ⟨fuel - 1, by omega⟩
    rw [skip_remains_step remains started, advance_proper rest more.proper]
    exact ih fuel _ more rfl plain.going (Nat.lt_of_succ_lt_succ short)

/-- After a declaration the compilation stands behind the segment, no more panicking. -/
lemma calmDown_spec {next : Token} {later : List Token} (opens : Opens next.kind) (budget : s.rest.length < s.budget)
    (place : (∃ ts, Remains (s.current :: ts) ∧ s.rest = ts ++ next :: later ∧ s.previous.kind ≠ .semicolon ∧
        s.panicking = true) ∨ s.previous.kind = .semicolon ∧ s.current = next ∧ s.rest = later) :
    ∃ token : Token, (calmDown s).2 =
      { s with previous := token, current := next, rest := later, panicking := false } := by
  have run : (calmDown s).2 =
      if s.panicking then (skipToStatement s.budget { s with panicking := false }).2 else s := by
    show ((if s.panicking = true then synchronize else pure () : Compiling Unit) s).2 = _
    split <;> rfl
  rw [run]
  rcases place with ⟨ts, remains, rest, started, panics⟩ | ⟨ended, rfl, rfl⟩
  · rw [if_pos panics]
    exact skip_remains opens ts _ { s with panicking := false } remains rest started budget
  · split
    · rw [skip_ended (s := { s with panicking := false }) ended (Nat.zero_lt_of_lt budget)]
      exact ⟨_, rfl⟩
    · next calm =>
      refine ⟨s.previous, ?_⟩
      rw [← Bool.eq_false_iff.2 calm]

/-! ## Segments one after the other -/

/-- The compilation of the script stands between two declarations. -/
structure State.Between (s : State) : Prop where
  calm : s.panicking = false
  top : s.AtTop
  simple : s.Small → ∀ l ∈ s.body.literals, IsSimple l
  budget : s.rest.length < s.budget

/-- Nothing has been compiled yet. -/
structure State.Fresh (s : State) : Prop extends Between s where
  diagnostics : s.diagnostics = #[]
  size : s.body.size = 0
  literals : s.body.literals = []

/-- The first word of a segment starts both compilations of it. -/
lemma Setting.enters (σ : Setting) {ts : List Token} (between : s.Between) (fresh : t.Fresh)
    (remains : Remains ts) (first : s.current.kind = .kwVar ∨ s.current.kind = .kwPrint)
    (current : t.current = s.current) (rest : s.rest = ts ++ σ.next :: σ.later)
    (rest' : t.rest = ts ++ [σ.last]) (before : σ.before = s.diagnostics) (offset : σ.offset = s.body.size)
    (pool : σ.pool = s.body.constants.size) : σ.At .within (advance s).2 (advance t).2 := by
  have started : s.current.kind ≠ .semicolon := by
    rcases first with is | is <;> rw [is] <;> decide
  cases ts with
  | nil => exact nomatch remains
  | cons second ts =>
    rw [List.cons_append] at rest rest'
    rw [advance_proper rest remains.proper, advance_proper rest' remains.proper]
    have budget := between.budget
    have budget' := fresh.budget
    rw [rest, List.length_cons] at budget
    rw [rest', List.length_cons] at budget'
    refine ⟨⟨current, { between.top with }, { fresh.top with }, ?_, ?_,
      Nat.lt_of_succ_lt budget, Nat.lt_of_succ_lt budget', fun small => ⟨?_, ?_, ?_, ?_⟩⟩,
      started, ts, remains, rfl, rfl, rfl⟩
    · show s.body.size = σ.offset + t.body.size
      rw [offset, fresh.size]
      rfl
    · exact Nat.le_of_eq pool
    · exact between.calm.trans fresh.calm.symm
    · show s.diagnostics = σ.before ++ t.diagnostics
      rw [before, fresh.diagnostics, Array.append_empty]
    · show if t.panicking then _ else _
      rw [fresh.calm]
      exact fresh.diagnostics
    · show PoolsAlike s.body.literals t.body.literals
      rw [fresh.literals]
      exact ⟨between.simple small, List.forall_mem_nil _, List.nodup_nil, List.nil_subset _⟩

/-- A declaration that has been read ends the segment, in either compilation. -/
structure Setting.Reported (σ : Setting) (s t : State) : Prop where
  between : s.Between
  current : s.current = σ.next
  rest : s.rest = σ.later
  current_apart : t.current = σ.last
  rest_apart : t.rest = []
  grown : σ.pool ≤ s.body.constants.size
  diagnostics : s.Small → s.diagnostics = σ.before ++ t.diagnostics
  once : s.Small → t.diagnostics.size ≤ 1

lemma Setting.Agree.once_le (h : σ.Agree s t) : t.diagnostics.size ≤ 1 := by
  have once := h.once
  split at once
  · exact Nat.le_of_eq once
  · rw [once]
    exact Nat.zero_le 1

lemma mirrors_calmDown (h : σ.At .done s t) :
    Mirrors calmDown calmDown s t fun _ _ => σ.Reported := by
  obtain ⟨alike, place⟩ := h
  have here : ∃ token : Token, (calmDown s).2 =
      { s with previous := token, current := σ.next, rest := σ.later, panicking := false } := by
    refine calmDown_spec σ.opens alike.budget ?_
    rcases place with ⟨⟨started, ts, remains, -, rest, -⟩, panics, -⟩ | beyond
    · exact .inl ⟨ts, remains, rest, started, panics⟩
    · exact .inr ⟨beyond.ended, beyond.current, beyond.rest⟩
  have apart : ∃ token : Token, (calmDown t).2 =
      { t with previous := token, current := σ.last, rest := [], panicking := false } := by
    refine calmDown_spec (σ.ends ▸ by decide) alike.budget_apart ?_
    rw [alike.previous]
    rcases place with ⟨⟨started, ts, remains, current, -, rest⟩, -, panics⟩ | beyond
    · exact .inl ⟨ts, current ▸ remains, rest, started, panics⟩
    · exact .inr ⟨beyond.ended, beyond.current_apart, beyond.rest_apart⟩
  have short : σ.later.length < s.budget := by
    refine Nat.lt_of_le_of_lt ?_ alike.budget
    rcases place with ⟨⟨-, ts, -, -, rest, -⟩, -⟩ | beyond
    · rw [rest, List.length_append, List.length_cons]
      omega
    · exact Nat.le_of_eq (congrArg _ beyond.rest.symm)
  obtain ⟨token, run⟩ := here
  obtain ⟨token', run'⟩ := apart
  unfold Mirrors
  rw [run, run']
  exact
    { between := ⟨rfl, { alike.top with }, fun small => (alike.agree small).pools.simple, short⟩
      current := rfl
      rest := rfl
      current_apart := rfl
      rest_apart := rfl
      grown := alike.grown
      diagnostics := fun small => (alike.agree small).diagnostics
      once := fun small => (alike.agree small).once_le }

lemma declaration_var {inner : Level} (found : s.current.kind = .kwVar) :
    declaration inner s = (variableDeclaration inner >>= fun _ => calmDown) (advance s).2 := by
  unfold declaration
  rw [accept_missing (by rw [found]; decide), if_neg Bool.false_ne_true,
    accept_missing (by rw [found]; decide), if_neg Bool.false_ne_true, accept_found found]
  rfl

lemma declaration_print {n : Nat} (found : s.current.kind = .kwPrint) :
    declaration (level (n + 1)) s = (printStatement (level n) >>= fun _ => calmDown) (advance s).2 := by
  have statement : statementBody (level n) s = printStatement (level n) (advance s).2 := by
    unfold statementBody
    rw [accept_found found]
    rfl
  unfold declaration
  rw [accept_missing (by rw [found]; decide), if_neg Bool.false_ne_true,
    accept_missing (by rw [found]; decide), if_neg Bool.false_ne_true,
    accept_missing (by rw [found]; decide), if_neg Bool.false_ne_true]
  show (calmDown (statementBody (level n) s).2) = _
  rw [statement]
  rfl

/-- The declaration of a segment is reported in a source as it is apart. -/
lemma mirrors_declaration (σ : Setting) (n : Nat) {ts : List Token} (between : s.Between) (fresh : t.Fresh)
    (segment : Segment (s.current :: ts)) (current : t.current = s.current)
    (rest : s.rest = ts ++ σ.next :: σ.later) (rest' : t.rest = ts ++ [σ.last])
    (before : σ.before = s.diagnostics) (offset : σ.offset = s.body.size)
    (pool : σ.pool = s.body.constants.size) :
    Mirrors (declaration (level (n + 1))) (declaration (level (n + 1))) s t fun _ _ => σ.Reported := by
  obtain ⟨_, _, same, first, remains⟩ := segment.head
  obtain ⟨rfl, rfl⟩ := List.cons.inj same
  have within := σ.enters between fresh remains first current rest rest' before offset pool
  unfold Mirrors
  rcases first with found | found
  · rw [declaration_var found, declaration_var (current ▸ found)]
    exact (mirrors_variableDeclaration (mirrors_level σ (n + 1)) within).bind
      fun _ _ _ _ h => mirrors_calmDown h
  · rw [declaration_print found, declaration_print (current ▸ found)]
    exact (mirrors_printStatement (mirrors_level σ n) within).bind fun _ _ _ _ h => mirrors_calmDown h

/-! ## Whole sources -/

/-- What is complained of when the script of some tokens is compiled. -/
def complaintsOf (tokens : List Token) (strings : StringTable) (serial : Nat) : Array Diagnostic :=
  (script (.start tokens.toArray strings serial)).2.diagnostics

/-- The compilation before the first token of a source. -/
lemma start_fresh {first : Token} (opens : Opens first.kind) (later : List Token) (strings : StringTable)
    (serial : Nat) : ∃ s : State, (advance (.start (first :: later).toArray strings serial)).2 = s ∧ s.Fresh ∧
      s.current = first ∧ s.rest = later := by
  refine ⟨_, rfl, ?_⟩
  rw [advance_proper (rfl : (State.start (first :: later).toArray strings serial).rest = first :: later) opens.proper]
  refine ⟨⟨⟨rfl, ⟨rfl, rfl, rfl, rfl⟩, fun _ => List.forall_mem_nil _, ?_⟩, rfl, rfl, rfl⟩, rfl, rfl⟩
  show later.length < (first :: later).toArray.size
  simp

lemma complaintsOf_apart {ts : List Token} {last : Token} (segment : Segment ts) (ends : last.kind = .endOfInput)
    (strings : StringTable) (serial : Nat) : ∃ t : State, t.Fresh ∧ t.current :: t.rest = ts ++ [last] ∧
      (((declaration (level maxNesting) t).2.current = last ∧ (declaration (level maxNesting) t).2.rest = []) →
        complaintsOf (ts ++ [last]) strings serial = (declaration (level maxNesting) t).2.diagnostics) := by
  obtain ⟨first, ts, rfl, starts, -⟩ := segment.head
  obtain ⟨opens, before⟩ := opens_of_starts starts
  obtain ⟨t, advanced, fresh, current, rest⟩ := start_fresh opens (ts ++ [last]) strings serial
  refine ⟨t, fresh, by rw [current, rest]; rfl, fun ⟨ended, nothing⟩ => ?_⟩
  have reads : complaintsOf (first :: ts ++ [last]) strings serial =
      (closeBody (program (level maxNesting) t.budget t).2).2.diagnostics := by
    rw [← advanced]
    rfl
  -- The program turns once for the segment and once for the end.
  obtain ⟨fuel, turns⟩ : ∃ fuel, t.budget = fuel + 1 + 1 := by
    have budget := fresh.budget
    rw [rest, List.length_append, List.length_singleton] at budget
    exact ⟨t.budget - 2, by omega⟩
  rw [reads, diagnostics_closeBody, turns, program_going _ _ (current ▸ before), program_done _ _ (ended ▸ ends),
    advance_nil nothing]

/-- Segments before the end of the source start with a segment, or there are none. -/
lemma flatten_opens {segments : List (List Token)} {last : Token} (all : ∀ ts ∈ segments, Segment ts)
    (ends : last.kind = .endOfInput) :
    ∃ next later, segments.flatten ++ [last] = next :: later ∧ Opens next.kind := by
  cases segments with
  | nil => exact ⟨last, [], rfl, ends ▸ by decide⟩
  | cons ts segments =>
    obtain ⟨t, ts, rfl, starts, -⟩ := (all ts List.mem_cons_self).head
    exact ⟨t, _, rfl, (opens_of_starts starts).1⟩

/-- The end of the script adds no constant. -/
lemma constants_closeBody (top : s.AtTop) : (closeBody s).2.body.constants = s.body.constants := by
  have returns : (emitReturn s).2.body.constants = s.body.constants ∧ (emitReturn s).2.enclosing = [] := by
    unfold emitReturn
    show ((if s.body.kind = .initializer then _ else _ : Compiling Unit) s).2.body.constants = _ ∧
      ((if s.body.kind = .initializer then _ else _ : Compiling Unit) s).2.enclosing = _
    split <;> exact ⟨rfl, top.enclosing⟩
  have takes : (takeBody (emitReturn s).2).2.body.constants = (emitReturn s).2.body.constants := by
    unfold takeBody
    simp only [modifyGet, MonadStateOf.modifyGet, StateT.modifyGet, returns.2]
    rfl
  exact takes.trans returns.1

/-- What is complained of in a segment that stands alone. -/
def report (ts : List Token) : List Diagnostic :=
  (complaintsOf (ts ++ [⟨.endOfInput, "", 0, 0⟩]) .empty 0).toList

/-- One thing at most is complained of in the segment, whatever objects there are and however the end of the
source is marked. -/
structure Alone (ts : List Token) : Prop where
  once : (report ts).length ≤ 1
  complaints : ∀ (last : Token) (strings : StringTable) (serial : Nat), last.kind = .endOfInput →
    (complaintsOf (ts ++ [last]) strings serial).toList = report ts

/-- What the compilation of segments comes to, up to the end of the source. -/
structure ReportedAll (segments : List (List Token)) (s s' : State) : Prop where
  top : s'.AtTop
  grown : s.body.constants.size ≤ s'.body.constants.size
  diagnostics : s'.Small → s'.diagnostics.toList = s.diagnostics.toList ++ segments.flatMap report
  alone : s'.Small → ∀ ts ∈ segments, Alone ts

/-- The declaration of a segment in a source. -/
lemma declaration_segment {ts : List Token} {next : Token} {later : List Token} (segment : Segment ts)
    (opens : Opens next.kind) (between : s.Between) (ahead : s.current :: s.rest = ts ++ next :: later) :
    ∃ s' : State, (declaration (level maxNesting) s).2 = s' ∧ s'.Between ∧ s'.current = next ∧ s'.rest = later ∧
      s.body.constants.size ≤ s'.body.constants.size ∧
      (s'.Small → s'.diagnostics.toList = s.diagnostics.toList ++ report ts ∧ Alone ts) := by
  have apart : ∀ (last : Token) (strings : StringTable) (serial : Nat), last.kind = .endOfInput →
      ∃ σ : Setting, σ.next = next ∧ σ.later = later ∧ σ.before = s.diagnostics ∧ σ.pool = s.body.constants.size ∧
        ∃ t : State, σ.Reported (declaration (level maxNesting) s).2 t ∧
          complaintsOf (ts ++ [last]) strings serial = t.diagnostics := by
    intro last strings serial ends
    obtain ⟨t, fresh, apart, reported⟩ := complaintsOf_apart segment ends strings serial
    obtain ⟨word, ts, rfl, -⟩ := segment.head
    obtain ⟨current, rest⟩ := List.cons.inj ahead
    obtain ⟨current', rest'⟩ := List.cons.inj apart
    let σ : Setting := ⟨s.diagnostics, s.body.size, s.body.constants.size, next, later, last, opens, ends⟩
    have one : σ.Reported (declaration (level maxNesting) s).2 (declaration (level maxNesting) t).2 :=
      mirrors_declaration σ 127 between fresh (current ▸ segment) (current'.trans current.symm) rest rest' rfl rfl rfl
    exact ⟨σ, rfl, rfl, rfl, rfl, _, one, reported ⟨one.current_apart, one.rest_apart⟩⟩
  generalize (declaration (level maxNesting) s).2 = s' at apart
  -- What comes of the declaration is the same whatever the segment is compared with.
  obtain ⟨σ, rfl, rfl, before, pool, t, one, complaints⟩ := apart ⟨.endOfInput, "", 0, 0⟩ .empty 0 rfl
  refine ⟨s', rfl, one.between, one.current, one.rest, pool ▸ one.grown, fun small => ?_⟩
  have diagnostics := one.diagnostics small
  rw [before] at diagnostics
  have own : report ts = t.diagnostics.toList := congrArg _ complaints
  rw [own, diagnostics, Array.toList_append]
  refine ⟨rfl, own ▸ one.once small, fun last strings serial ends => ?_⟩
  obtain ⟨σ', -, -, before', -, t', one', complaints'⟩ := apart last strings serial ends
  have diagnostics' := one'.diagnostics small
  rw [before', diagnostics] at diagnostics'
  rw [complaints', ← (Array.append_right_inj _).1 diagnostics', own]

lemma program_segments {last : Token} (ends : last.kind = .endOfInput) (segments : List (List Token)) :
    ∀ (fuel : Nat) (s : State), (∀ ts ∈ segments, Segment ts) → s.Between →
      s.current :: s.rest = segments.flatten ++ [last] → s.rest.length < fuel →
      ReportedAll segments s (program (level maxNesting) fuel s).2 := by
  induction segments with
  | nil =>
    intro fuel s _ between ahead short
    obtain ⟨current, rest⟩ := List.cons.inj ahead
    obtain ⟨fuel, rfl⟩ := Nat.exists_eq_succ_of_ne_zero (Nat.ne_of_gt (Nat.zero_lt_of_lt short))
    rw [program_done _ _ (current ▸ ends), advance_nil rest]
    exact ⟨{ between.top with }, Nat.le_refl _, fun _ => (List.append_nil _).symm, fun _ => List.forall_mem_nil _⟩
  | cons ts segments ih =>
    intro fuel s all between ahead short
    obtain ⟨first, others⟩ := List.forall_mem_cons.1 all
    obtain ⟨next, later, following, opens⟩ := flatten_opens others ends
    rw [List.flatten_cons, List.append_assoc, following] at ahead
    obtain ⟨s', declares, between', current, rest, grown, reports⟩ := declaration_segment first opens between ahead
    obtain ⟨word, ts, rfl, starts, -⟩ := first.head
    obtain ⟨current₀, rest₀⟩ := List.cons.inj ahead
    obtain ⟨fuel, rfl⟩ := Nat.exists_eq_succ_of_ne_zero (Nat.ne_of_gt (Nat.zero_lt_of_lt short))
    rw [program_going _ _ (current₀ ▸ (opens_of_starts starts).2), declares]
    have short' : s'.rest.length < fuel := by
      have length : s.rest.length = ts.length + (later.length + 1) :=
        (congrArg List.length rest₀).trans List.length_append
      rw [rest]
      omega
    have others' := ih fuel s' others between' (by rw [following, current, rest]) short'
    have reported := fun small => reports (Nat.le_trans others'.grown small)
    refine ⟨others'.top, Nat.le_trans grown others'.grown, fun small => ?_, fun small => ?_⟩
    · rw [others'.diagnostics small, (reported small).1, List.append_assoc, List.flatMap_cons]
    · exact List.forall_mem_cons.2 ⟨(reported small).2, others'.alone small⟩

/-- The script of segments. -/
lemma script_segments {segments : List (List Token)} {last : Token} (ends : last.kind = .endOfInput)
    (all : ∀ ts ∈ segments, Segment ts) (strings : StringTable) (serial : Nat)
    (small : (script (.start (segments.flatten ++ [last]).toArray strings serial)).2.Small) :
    (complaintsOf (segments.flatten ++ [last]) strings serial).toList = segments.flatMap report ∧
      ∀ ts ∈ segments, Alone ts := by
  obtain ⟨next, later, following, opens⟩ := flatten_opens all ends
  obtain ⟨s, advanced, fresh, current, rest⟩ := start_fresh opens later strings serial
  have run : (script (.start (segments.flatten ++ [last]).toArray strings serial)).2 =
      (closeBody (program (level maxNesting) s.budget s).2).2 := by
    rw [following, ← advanced]
    rfl
  have reported := program_segments ends segments s.budget s all fresh.toBetween
    (by rw [following, current, rest]) fresh.budget
  unfold complaintsOf
  rw [run] at small ⊢
  rw [State.Small, constants_closeBody reported.top] at small
  rw [diagnostics_closeBody, reported.diagnostics small, fresh.diagnostics]
  exact ⟨rfl, reported.alone small⟩

end Lox.Compile

namespace Lox

open Compile

/-- What is complained of in the compilation of a source. -/
def Compilation.complaints (c : Compilation) : List Diagnostic :=
  match c.outcome with
  | .ok _ => []
  | .error diagnostics => diagnostics.toList

lemma complaints_compile (source : String) (strings : StringTable) (serial : Nat) :
    (compile source strings serial).complaints =
      (complaintsOf (Token.scan source).toList strings serial).toList := by
  have same : complaintsOf (Token.scan source).toList strings serial =
      (script (.start (Token.scan source) strings serial)).2.diagnostics := by
    rw [complaintsOf, Array.toArray_toList]
  rw [same]
  cases outcome : (compile source strings serial).outcome with
  | error diagnostics =>
    rw [Compilation.complaints, outcome, (compile_error_iff.1 outcome).2]
  | ok p =>
    have quiet : (script (.start (Token.scan source) strings serial)).2.diagnostics.isEmpty = true := by
      by_contra some_
      have fails := compile_error_iff.2 ⟨Bool.eq_false_iff.2 some_, rfl⟩
      exact nomatch outcome.symm.trans fails
    rw [Compilation.complaints, outcome, Array.isEmpty_iff.1 quiet]

lemma scan_ends {source : String} {ts : List Token} {last : Token}
    (scanned : (Token.scan source).toList = ts ++ [last]) : last.kind = .endOfInput := by
  obtain ⟨ts', last', all, ends, -⟩ := Token.scan_spec source
  rw [scanned] at all
  rw [(List.append_inj' all rfl).2 |> List.singleton_inj.1]
  exact ends

/-- In a source of segments each segment is complained of as if it stood alone, at its own place, and of
nothing but the first thing that is wrong with it: no segment hides an error of another one, and
none is reported because of another one. -/
theorem compile_segments (source : String) (strings : StringTable) (serial : Nat) (segments : List (List Token))
    (last : Token) (scanned : (Token.scan source).toList = segments.flatten ++ [last])
    (all : ∀ ts ∈ segments, Segment ts)
    (few : (script (.start (Token.scan source) strings serial)).2.body.constants.size ≤ maxOperands)
    (apart : StringTable) (number : Nat) :
    (compile source strings serial).complaints =
        segments.flatMap (fun ts => (complaintsOf (ts ++ [last]) apart number).toList) ∧
      (∀ ts ∈ segments, (complaintsOf (ts ++ [last]) apart number).size ≤ 1) ∧
      ∀ ts ∈ segments, ∀ (text : String) (ending : Token), (Token.scan text).toList = ts ++ [ending] →
        (compile text apart number).complaints = (complaintsOf (ts ++ [last]) apart number).toList := by
  have ends : last.kind = .endOfInput := scan_ends scanned
  obtain ⟨complaints, alone⟩ : (complaintsOf (segments.flatten ++ [last]) strings serial).toList =
      segments.flatMap report ∧ ∀ ts ∈ segments, Alone ts := by
    refine script_segments ends all strings serial ?_
    rwa [← scanned, Array.toArray_toList]
  have own : ∀ ts ∈ segments, (complaintsOf (ts ++ [last]) apart number).toList = report ts :=
    fun ts there => (alone ts there).complaints last apart number ends
  refine ⟨?_, fun ts there => ?_, fun ts there text ending read => ?_⟩
  · rw [complaints_compile, scanned, complaints, List.flatMap_congr own]
  · rw [← Array.length_toList, own ts there]
    exact (alone ts there).once
  · rw [complaints_compile, read, own ts there]
    exact (alone ts there).complaints ending apart number (scan_ends read)

/-- Of three segments the first loses its semicolon to a missing operand, and the second one never closes. -/
theorem compile_segments_swallowed :
    ∃ segments : List (List Token), (∀ ts ∈ segments, Segment ts) ∧ segments.length = 3 ∧
      (compile "var a = 1 +;\nprint (b;\nprint 3;" .empty 0).complaints =
        segments.flatMap (fun ts => (complaintsOf (ts ++ [⟨.endOfInput, "", 3, 31⟩]) .empty 0).toList) ∧
      (compile "var a = 1 +;\nprint (b;\nprint 3;" .empty 0).complaints.map Diagnostic.line = [1, 2] := by
  let first : List Token := ⟨.kwVar, "var", 1, 0⟩ :: ([⟨.identifier, "a", 1, 4⟩, ⟨.equal, "=", 1, 6⟩,
    ⟨.number, "1", 1, 8⟩, ⟨.plus, "+", 1, 10⟩] ++ [⟨.semicolon, ";", 1, 11⟩])
  let second : List Token := ⟨.kwPrint, "print", 2, 13⟩ :: ([⟨.leftParen, "(", 2, 19⟩, ⟨.identifier, "b", 2, 20⟩] ++
    [⟨.semicolon, ";", 2, 21⟩])
  let third : List Token := ⟨.kwPrint, "print", 3, 23⟩ :: ([⟨.number, "3", 3, 29⟩] ++ [⟨.semicolon, ";", 3, 30⟩])
  have all : ∀ ts ∈ [first, second, third], Segment ts := by
    refine List.forall_mem_cons.2 ⟨?_, List.forall_mem_cons.2 ⟨?_, List.forall_mem_singleton.2 ?_⟩⟩
    · exact .mk (.inl rfl) (by decide) rfl
    · exact .mk (.inr rfl) (by decide) rfl
    · exact .mk (.inr rfl) (by decide) rfl
  have whole := compile_segments "var a = 1 +;\nprint (b;\nprint 3;" .empty 0 [first, second, third]
    ⟨.endOfInput, "", 3, 31⟩ (by decide +kernel) all (by decide +kernel) .empty 0
  exact ⟨_, all, rfl, whole.1, by decide +kernel⟩

end Lox
