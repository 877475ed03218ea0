import Lox.Proofs.Syntax.Canonical

/-!
# Parentheses

A tree without parentheses is rendered by putting an operand into them where it would otherwise be read
as part of something else (`Expr.render`).  Whoever reads the words finds the tree
(`Expr.Bare.canonical_render`), and no rendering has fewer parentheses
(`Expr.Canonical.render_least`).  More of them may be put around any expression, the tree stays the same
(`Expr.Parenthesized.canonical`).
-/

namespace Lox.Syntax

open Compile

variable {s : ExprSort}

/-! ## Trees without parentheses -/

/-- An expression of literals, variables, assignments, properties, calls and operators, without
parentheses and without words for a receiver. -/
def Expr.Bare : {s : ExprSort} → Expr s → Prop
  | _, .literal kind => ∃ i, value? kind = some i
  | _, .assign _ value => value.Bare
  | _, .this | _, .superGet _ | _, .superCall _ _ | _, .grouping _ => False
  | _, .unary op e => (∃ i, unary? op = some i) ∧ e.Bare
  | _, .binary op l r => (∃ p is, binary? op = some (p, is)) ∧ l.Bare ∧ r.Bare
  | _, .and l r => l.Bare ∧ r.Bare
  | _, .or l r => l.Bare ∧ r.Bare
  | _, .call f args => f.Bare ∧ args.Bare
  | _, .get e _ => e.Bare
  | _, .set e _ value => e.Bare ∧ value.Bare
  | _, .invoke e _ args => e.Bare ∧ args.Bare
  | _, .someArguments args => args.Bare
  | _, .lastArgument e => e.Bare
  | _, .argument e args => e.Bare ∧ args.Bare
  | _, _ => True

/-- The tree without its parentheses. -/
def Expr.strip : {s : ExprSort} → Expr s → Expr s
  | _, .assign x value => .assign x value.strip
  | _, .superCall m args => .superCall m args.strip
  | _, .grouping e => e.strip
  | _, .unary op e => .unary op e.strip
  | _, .binary op l r => .binary op l.strip r.strip
  | _, .and l r => .and l.strip r.strip
  | _, .or l r => .or l.strip r.strip
  | _, .call f args => .call f.strip args.strip
  | _, .get e p => .get e.strip p
  | _, .set e p value => .set e.strip p value.strip
  | _, .invoke e p args => .invoke e.strip p args.strip
  | _, .someArguments args => .someArguments args.strip
  | _, .lastArgument e => .lastArgument e.strip
  | _, .argument e args => .argument e.strip args.strip
  | _, e => e

/-! ## Rendering -/

/-- The expression, in parentheses if they are needed. -/
def Expr.enclosed (needed : Bool) (e : Expr .expression) : Expr .expression :=
  if needed then .grouping e else e

/-- The tree with the parentheses that are needed.  A left operand needs them if it would not end before
the operator, a right one if it does not bind tightly enough; a property that is called needs them, as
it would be invoked otherwise. -/
def Expr.render : {s : ExprSort} → Expr s → Expr s
  | _, .assign x value => .assign x value.render
  | _, .superCall m args => .superCall m args.render
  | _, .grouping e => .grouping e.render
  | _, .unary op e => .unary op (e.render.enclosed (e.rank < Precedence.unary.rank))
  | _, .binary op l r =>
    .binary op (l.render.enclosed (l.ceiling < (Expr.binary op l r).rank))
      (r.render.enclosed (r.rank ≤ (Expr.binary op l r).rank))
  | _, .and l r =>
    .and (l.render.enclosed (l.ceiling < Precedence.and.rank))
      (r.render.enclosed (r.rank < Precedence.and.rank))
  | _, .or l r =>
    .or (l.render.enclosed (l.ceiling < Precedence.or.rank))
      (r.render.enclosed (r.rank < Precedence.or.rank))
  | _, .call f args =>
    .call (f.render.enclosed (f.ceiling < Precedence.call.rank || !f.takesCall)) args.render
  | _, .get e p => .get (e.render.enclosed (e.ceiling < Precedence.call.rank)) p
  | _, .set e p value =>
    .set (e.render.enclosed (e.ceiling < Precedence.call.rank)) p value.render
  | _, .invoke e p args =>
    .invoke (e.render.enclosed (e.ceiling < Precedence.call.rank)) p args.render
  | _, .someArguments args => .someArguments args.render
  | _, .lastArgument e => .lastArgument e.render
  | _, .argument e args => .argument e.render args.render
  | _, e => e

/-- The second tree is the first one with parentheses around any of its expressions in addition. -/
inductive Expr.Parenthesized : {s : ExprSort} → Expr s → Expr s → Prop where
  | refl {s : ExprSort} (e : Expr s) : Parenthesized e e
  | around {e e'} (h : Parenthesized e e') : Parenthesized e (.grouping e')
  | assign {x v v'} (h : Parenthesized v v') : Parenthesized (.assign x v) (.assign x v')
  | superCall {m args args'} (h : Parenthesized args args') :
      Parenthesized (.superCall m args) (.superCall m args')
  | grouping {e e'} (h : Parenthesized e e') : Parenthesized (.grouping e) (.grouping e')
  | unary {op e e'} (h : Parenthesized e e') : Parenthesized (.unary op e) (.unary op e')
  | binary {op l l' r r'} (h : Parenthesized l l') (h' : Parenthesized r r') :
      Parenthesized (.binary op l r) (.binary op l' r')
  | and {l l' r r'} (h : Parenthesized l l') (h' : Parenthesized r r') :
      Parenthesized (.and l r) (.and l' r')
  | or {l l' r r'} (h : Parenthesized l l') (h' : Parenthesized r r') :
      Parenthesized (.or l r) (.or l' r')
  | call {f f' args args'} (h : Parenthesized f f') (h' : Parenthesized args args') :
      Parenthesized (.call f args) (.call f' args')
  | get {e e' p} (h : Parenthesized e e') : Parenthesized (.get e p) (.get e' p)
  | set {e e' p v v'} (h : Parenthesized e e') (h' : Parenthesized v v') :
      Parenthesized (.set e p v) (.set e' p v')
  | invoke {e e' p args args'} (h : Parenthesized e e') (h' : Parenthesized args args') :
      Parenthesized (.invoke e p args) (.invoke e' p args')
  | someArguments {args args'} (h : Parenthesized args args') :
      Parenthesized (.someArguments args) (.someArguments args')
  | lastArgument {e e'} (h : Parenthesized e e') : Parenthesized (.lastArgument e) (.lastArgument e')
  | argument {e e' args args'} (h : Parenthesized e e') (h' : Parenthesized args args') :
      Parenthesized (.argument e args) (.argument e' args')

/-! ## How tightly renderings bind -/

variable {e e' : Expr .expression} {needed : Bool} {n : Nat}

@[simp] lemma Expr.rank_render (e : Expr .expression) : e.render.rank = e.rank := by cases e <;> rfl

@[simp] lemma Expr.ceiling_render (e : Expr .expression) : e.render.ceiling = e.ceiling := by
  cases e <;> rfl

@[simp] lemma Expr.takesCall_render (e : Expr .expression) : e.render.takesCall = e.takesCall := by
  cases e <;> rfl

@[simp] lemma Expr.canonical_enclosed : (e.enclosed needed).Canonical ↔ e.Canonical := by
  cases needed <;> rfl

lemma Expr.le_rank_enclosed (small : n ≤ Precedence.primary.rank) (kept : needed = false → n ≤ e.rank) :
    n ≤ (e.enclosed needed).rank := by
  cases needed with
  | false => exact kept rfl
  | true => exact small

lemma Expr.le_ceiling_enclosed (small : n ≤ Precedence.primary.rank)
    (kept : needed = false → n ≤ e.ceiling) : n ≤ (e.enclosed needed).ceiling := by
  cases needed with
  | false => exact kept rfl
  | true => exact small

lemma Expr.takesCall_enclosed (kept : needed = false → e.takesCall) : (e.enclosed needed).takesCall := by
  cases needed with
  | false => exact kept rfl
  | true => rfl

/-- A right operand binds tightly enough. -/
lemma Expr.le_rank_render (e : Expr .expression) (small : n ≤ Precedence.primary.rank) :
    n ≤ (e.render.enclosed (e.rank < n)).rank := by
  refine le_rank_enclosed small fun kept => ?_
  rw [rank_render]
  exact Nat.not_lt.1 (of_decide_eq_false kept)

/-- A left operand ends before the operator. -/
lemma Expr.le_ceiling_render (e : Expr .expression) (small : n ≤ Precedence.primary.rank) :
    n ≤ (e.render.enclosed (e.ceiling < n)).ceiling := by
  refine le_ceiling_enclosed small fun kept => ?_
  rw [ceiling_render]
  exact Nat.not_lt.1 (of_decide_eq_false kept)

/-! ## Renderings are canonical -/

/-- The words of a rendering are read as the tree that was rendered, with its parentheses. -/
theorem Expr.Bare.canonical_render {e : Expr s} (h : e.Bare) : e.render.Canonical := by
  induction e with
  | number | string | name | noArguments => exact trivial
  | literal => exact h
  | this | superGet | superCall | grouping => exact h.elim
  | assign x value ih => exact ih h
  | unary op e ih => exact ⟨h.1, canonical_enclosed.2 (ih h.2), e.le_rank_render (by decide)⟩
  | binary op l r ihl ihr =>
    obtain ⟨⟨p, is, word⟩, left, right⟩ := h
    obtain ⟨rank, -⟩ := rank_binary word l r
    have first : p.rank ≤ (l.render.enclosed (l.ceiling < p.rank)).ceiling :=
      l.le_ceiling_render (by cases p <;> decide)
    have second : p.next.rank ≤ (r.render.enclosed (r.rank ≤ p.rank)).rank := by
      refine le_rank_enclosed (by cases p <;> decide) fun kept => ?_
      have step : p.next.rank ≤ p.rank + 1 := by cases p <;> decide
      rw [rank_render]
      exact Nat.le_trans step (Nat.not_le.1 (of_decide_eq_false kept))
    rw [← rank] at first second
    exact ⟨p, is, word, canonical_enclosed.2 (ihl left), rank ▸ first, canonical_enclosed.2 (ihr right),
      second⟩
  | and l r ihl ihr | or l r ihl ihr =>
    exact ⟨canonical_enclosed.2 (ihl h.1), l.le_ceiling_render (by decide),
      canonical_enclosed.2 (ihr h.2), r.le_rank_render (by decide)⟩
  | call f args ihf ihargs =>
    refine ⟨canonical_enclosed.2 (ihf h.1), le_ceiling_enclosed (by decide) fun kept => ?_,
      takesCall_enclosed fun kept => ?_, ihargs h.2⟩
    · rw [ceiling_render]
      exact Nat.not_lt.1 (of_decide_eq_false (Bool.or_eq_false_iff.1 kept).1)
    · rw [takesCall_render]
      simpa using (Bool.or_eq_false_iff.1 kept).2
  | get e p ih => exact ⟨canonical_enclosed.2 (ih h), e.le_ceiling_render (by decide)⟩
  | set e p value ihe ihv =>
    exact ⟨canonical_enclosed.2 (ihe h.1), e.le_ceiling_render (by decide), ihv h.2⟩
  | invoke e p args ihe ihargs =>
    exact ⟨canonical_enclosed.2 (ihe h.1), e.le_ceiling_render (by decide), ihargs h.2⟩
  | someArguments args ih => exact ih h
  | lastArgument e ih => exact ih h
  | argument e args ihe ihargs => exact ⟨ihe h.1, ihargs h.2⟩

/-! ## Parentheses in addition -/

/-- Nothing binds more tightly than a primary expression. -/
lemma Expr.rank_le (e : Expr .expression) : e.rank ≤ Precedence.primary.rank := by
  cases e with
  | binary op =>
    simp only [Expr.rank]
    cases word : binary? op with
    | none => exact Nat.zero_le _
    | some entry => exact Nat.le_trans (binary_loose word) (by decide)
  | _ => simp only [Expr.rank]; decide

namespace Expr.Parenthesized

/-- With parentheses around it an expression stands wherever it may stand without. -/
lemma tighter (h : e.Parenthesized e') :
    e.rank ≤ e'.rank ∧ e.ceiling ≤ e'.ceiling ∧ (e.takesCall → e'.takesCall) := by
  cases h with
  | around => exact ⟨e.rank_le, Nat.le_trans e.ceiling_le_rank e.rank_le, fun _ => rfl⟩
  | _ => exact ⟨Nat.le_refl _, Nat.le_refl _, id⟩

theorem canonical {e e' : Expr s} (h : e.Parenthesized e') (canonical : e.Canonical) : e'.Canonical := by
  induction h with
  | refl => exact canonical
  | around _ ih | assign _ ih | superCall _ ih | grouping _ ih | someArguments _ ih | lastArgument _ ih =>
    exact ih canonical
  | unary h ih =>
    obtain ⟨word, inner, tight⟩ := canonical
    exact ⟨word, ih inner, Nat.le_trans tight h.tighter.1⟩
  | binary h h' ih ih' =>
    obtain ⟨p, is, word, left, leftTight, right, rightTight⟩ := canonical
    exact ⟨p, is, word, ih left, Nat.le_trans leftTight h.tighter.2.1, ih' right,
      Nat.le_trans rightTight h'.tighter.1⟩
  | and h h' ih ih' | or h h' ih ih' =>
    obtain ⟨left, leftTight, right, rightTight⟩ := canonical
    exact ⟨ih left, Nat.le_trans leftTight h.tighter.2.1, ih' right, Nat.le_trans rightTight h'.tighter.1⟩
  | call h _ ih ih' =>
    obtain ⟨callee, tight, called, args⟩ := canonical
    exact ⟨ih callee, Nat.le_trans tight h.tighter.2.1, h.tighter.2.2 called, ih' args⟩
  | get h ih => exact ⟨ih canonical.1, Nat.le_trans canonical.2 h.tighter.2.1⟩
  | set h _ ih ih' | invoke h _ ih ih' =>
    obtain ⟨owner, tight, given⟩ := canonical
    exact ⟨ih owner, Nat.le_trans tight h.tighter.2.1, ih' given⟩
  | argument _ _ ih ih' => exact ⟨ih canonical.1, ih' canonical.2⟩

lemma strip {e e' : Expr s} (h : e.Parenthesized e') : e'.strip = e.strip := by
  induction h <;> simp_all [Expr.strip]

end Expr.Parenthesized

/-! ## No fewer parentheses -/

lemma Expr.strip_enclosed : (e.enclosed needed).strip = e.strip := by
  cases needed <;> rfl

lemma Expr.Bare.strip_render {e : Expr s} (h : e.Bare) : e.render.strip = e := by
  induction e with
  | this | superGet | superCall | grouping => exact h.elim
  | _ => simp_all [Expr.Bare, Expr.render, Expr.strip, Expr.strip_enclosed]

/-- An expression that is not in parentheses binds like the tree. -/
lemma Expr.strip_binds (plain : ∀ inner, e ≠ .grouping inner) :
    e.strip.rank = e.rank ∧ e.strip.ceiling = e.ceiling ∧ e.strip.takesCall = e.takesCall := by
  cases e with
  | grouping inner => exact absurd rfl (plain inner)
  | _ => exact ⟨rfl, rfl, rfl⟩

/-- A rendering stays below a tree with parentheses where they are needed. -/
lemma Expr.Parenthesized.enclosed (bare : e.Bare) (h : e.render.Parenthesized e')
    (kept : needed = true → ∃ inner, e' = .grouping inner) :
    (e.render.enclosed needed).Parenthesized e' := by
  cases needed with
  | false => exact h
  | true =>
    obtain ⟨inner, rfl⟩ := kept rfl
    have smaller : e.render.Parenthesized inner := by
      cases e with
      | this | superGet | superCall | grouping => exact bare.elim
      | _ => cases h with
        | around h => exact h
    exact .grouping smaller

/-- Parentheses that a right operand needs are there: it would be read otherwise without. -/
lemma Expr.grouped_of_rank (tight : n ≤ e.rank) (needed : decide (e.strip.rank < n) = true) :
    ∃ inner, e = .grouping inner := by
  by_contra plain
  rw [(strip_binds (not_exists.1 plain)).1] at needed
  exact absurd tight (Nat.not_le_of_lt (of_decide_eq_true needed))

/-- Parentheses that a left operand needs are there. -/
lemma Expr.grouped_of_ceiling (tight : n ≤ e.ceiling) (needed : decide (e.strip.ceiling < n) = true) :
    ∃ inner, e = .grouping inner := by
  by_contra plain
  rw [(strip_binds (not_exists.1 plain)).2.1] at needed
  exact absurd tight (Nat.not_le_of_lt (of_decide_eq_true needed))

/-- Whatever is read as a tree without parentheses has at least those of its rendering. -/
theorem Expr.Canonical.render_least {e : Expr s} (h : e.Canonical) (bare : e.strip.Bare) :
    e.strip.render.Parenthesized e := by
  induction e with
  | number | string | literal | name | noArguments => exact .refl _
  | this | superGet | superCall => exact bare.elim
  | grouping e ih => exact .around (ih h bare)
  | assign x value ih => exact .assign (ih h bare)
  | unary op e ih =>
    exact .unary ((ih h.2.1 bare.2).enclosed bare.2 (grouped_of_rank h.2.2))
  | binary op l r ihl ihr =>
    obtain ⟨p, is, word, left, leftTight, right, rightTight⟩ := h
    obtain ⟨-, bareLeft, bareRight⟩ := bare
    obtain ⟨rank, -⟩ := rank_binary word l.strip r.strip
    refine .binary ((ihl left bareLeft).enclosed bareLeft ?_) ((ihr right bareRight).enclosed bareRight ?_)
    · rw [rank]
      exact grouped_of_ceiling leftTight
    · rw [rank]
      refine fun needed => grouped_of_rank rightTight (decide_eq_true ?_)
      have step : p.rank < p.next.rank := by
        have loose := binary_loose word
        revert loose
        cases p <;> decide
      exact Nat.lt_of_le_of_lt (of_decide_eq_true needed) step
  | and l r ihl ihr =>
    obtain ⟨left, leftTight, right, rightTight⟩ := h
    exact .and ((ihl left bare.1).enclosed bare.1 (grouped_of_ceiling leftTight))
      ((ihr right bare.2).enclosed bare.2 (grouped_of_rank rightTight))
  | or l r ihl ihr =>
    obtain ⟨left, leftTight, right, rightTight⟩ := h
    exact .or ((ihl left bare.1).enclosed bare.1 (grouped_of_ceiling leftTight))
      ((ihr right bare.2).enclosed bare.2 (grouped_of_rank rightTight))
  | call f args ihf ihargs =>
    obtain ⟨callee, tight, called, given⟩ := h
    refine .call ((ihf callee bare.1).enclosed bare.1 fun needed => ?_) (ihargs given bare.2)
    rcases Bool.or_eq_true_iff.1 needed with loose | property
    · exact grouped_of_ceiling tight loose
    · by_contra plain
      rw [(strip_binds (not_exists.1 plain)).2.2, called] at property
      exact Bool.false_ne_true property
  | get e p ih => exact .get ((ih h.1 bare).enclosed bare (grouped_of_ceiling h.2))
  | set e p value ihe ihv =>
    obtain ⟨owner, tight, given⟩ := h
    exact .set ((ihe owner bare.1).enclosed bare.1 (grouped_of_ceiling tight)) (ihv given bare.2)
  | invoke e p args ihe ihargs =>
    obtain ⟨owner, tight, given⟩ := h
    exact .invoke ((ihe owner bare.1).enclosed bare.1 (grouped_of_ceiling tight)) (ihargs given bare.2)
  | someArguments args ih => exact .someArguments (ih h bare)
  | lastArgument e ih => exact .lastArgument (ih h bare)
  | argument e args ihe ihargs => exact .argument (ihe h.1 bare.1) (ihargs h.2 bare.2)

end Lox.Syntax
