import Lox.Proofs.Syntax.Derivation
import Lox.Proofs.Syntax.Unambiguity

/-!
# Canonical trees

The words of an expression group into it again exactly if it is canonical (`Expr.reads_iff_canonical`):
if its operands bind tightly enough, or stand in parentheses.

A reader that has come to the end of an expression must find nothing there that belongs to it
(`Expr.Precedes`).  For a left operand that is a condition on the operator after it, for a right one it
follows from what comes after the whole.
-/

namespace Lox.Syntax

open Compile

/-! ## What may come after an expression -/

/-- An operator after the expression takes the whole of it as its operand, and so does a call. -/
structure Expr.Closed (e : Expr .expression) (ws : List Word) : Prop where
  operators : ∀ kind p, nextKind ws = some kind → binding? kind = some p → p.rank ≤ e.ceiling
  call : nextKind ws = some .leftParen → e.takesCall

/-- The words after the expression do not change how it is read; they do not assign to it either. -/
structure Expr.Precedes (e : Expr .expression) (ws : List Word) : Prop extends e.Closed ws where
  noTarget : nextKind ws ≠ some .equal

variable {e l r : Expr .expression} {ws rest : List Word} {least p : Precedence}

/-- A mark that is no operator may come after any expression. -/
lemma Expr.Precedes.mark {kind : TokenKind} (none : binding? kind = none) (other : kind ≠ .equal) :
    e.Precedes (.mark kind :: ws) where
  operators k p next binds := by
    obtain rfl := Option.some.inj next
    rw [none] at binds
    exact nomatch binds
  call next := by
    obtain rfl := Option.some.inj next
    exact nomatch none
  noTarget next := other (Option.some.inj next)

/-- An operator may come after what binds tightly enough. -/
lemma Expr.Precedes.operator {op : TokenKind} (word : binding? op = some p)
    (tight : p.rank ≤ e.ceiling) (other : op ≠ .leftParen) : e.Precedes (.mark op :: ws) where
  operators k q next binds := by
    obtain rfl := Option.some.inj next
    obtain rfl := Option.some.inj (word.symm.trans binds)
    exact tight
  call next := absurd (Option.some.inj next) other
  noTarget next := by
    obtain rfl := Option.some.inj next
    exact nomatch word

/-- The arguments of a call may come after what is called. -/
lemma Expr.Precedes.callee (tight : Precedence.call.rank ≤ e.ceiling) (called : e.takesCall) :
    e.Precedes (.mark .leftParen :: ws) where
  operators k p next binds := by
    obtain rfl := Option.some.inj next
    obtain rfl := Option.some.inj binds
    exact tight
  call _ := called
  noTarget next := nomatch next

/-- The last operand of an operator may stand where the whole may. -/
lemma Expr.Precedes.operand (h : e.Precedes ws) (tighter : e.ceiling ≤ r.ceiling)
    (loose : e.ceiling < Precedence.call.rank) : r.Precedes ws where
  operators k p next binds := Nat.le_trans (h.operators k p next binds) tighter
  call next := absurd (h.operators _ _ next rfl) (Nat.not_le_of_lt loose)
  noTarget := h.noTarget

/-- No operator after the expression is part of it. -/
lemma Expr.Precedes.stops (h : e.Precedes ws) (loose : e.ceiling < least.rank) :
    ¬Continues least ws := by
  rintro ⟨k, p, next, word, binds⟩
  exact absurd (Nat.le_trans binds (h.operators k p next word)) (Nat.not_le_of_lt loose)

lemma Expr.Precedes.ends (h : e.Precedes ws) (loose : e.ceiling = 0) : ¬Continues least ws := by
  rintro ⟨k, p, next, word, -⟩
  have bound := h.operators k p next word
  have pos : 1 ≤ p.rank := (binding_bounds word).1
  omega

/-! ## Precedences -/

lemma Expr.ceiling_le_rank (e : Expr .expression) : e.ceiling ≤ e.rank := by
  cases e with
  | binary => exact Nat.le_refl _
  | _ => simp only [Expr.ceiling, Expr.rank]; decide

/-- The right operand of a binary operator takes no operator from behind that the whole does not. -/
lemma Expr.ceiling_of_rank (loose : p ≤ .factor) (tight : p.next.rank ≤ e.rank) :
    p.rank ≤ e.ceiling := by
  have upper : p.rank ≤ Precedence.factor.rank := loose
  cases e with
  | binary op => exact Nat.le_trans (by cases p <;> decide) tight
  | assign | set | or | and =>
    simp only [Expr.ceiling, Expr.rank] at tight ⊢
    cases p <;> revert tight <;> decide
  | _ => exact Nat.le_trans upper (by simp only [Expr.ceiling]; decide)

lemma eq_assignment (loose : least.rank ≤ Precedence.assignment.rank) : least = .assignment := by
  cases least <;> first | rfl | exact absurd loose (by decide)

/-! ## Reading a canonical tree -/

/-- The words of the phrase are read as the phrase, wherever they may stand: the reader comes to the
words after an expression with the whole of it as the left operand. -/
def Expr.ReadsBack : {s : ExprSort} → Expr s → Prop
  | .expression, e => ∀ (least : Precedence) (ws rest : List Word) (whole : Expr .expression),
      least.rank ≤ e.rank → e.Precedes ws → (Goal.after least e).Reads ws whole rest →
        (Goal.operators least).Reads (e.words ++ ws) whole rest
  | .argumentList, args => ∀ ws : List Word,
      Goal.argumentList.Reads (args.words ++ .mark .rightParen :: ws) args ws
  | .arguments, args => ∀ ws : List Word,
      Goal.arguments.Reads (args.words ++ .mark .rightParen :: ws) args (.mark .rightParen :: ws)

/-- No operator after the expression belongs to it, so it is read alone. -/
lemma Expr.ReadsBack.alone (h : e.ReadsBack) (tight : least.rank ≤ e.rank) (precedes : e.Precedes ws)
    (stops : ¬Continues least ws) : (Goal.operators least).Reads (e.words ++ ws) e ws :=
  h _ _ _ _ tight precedes (.done stops)

/-- An expression is read up to a mark that is no operator. -/
lemma Expr.ReadsBack.upTo (h : e.ReadsBack) {kind : TokenKind} (none : binding? kind = none)
    (other : kind ≠ .equal) : ReadsExpr (e.words ++ .mark kind :: ws) e (.mark kind :: ws) :=
  h.alone (Nat.zero_le _) (.mark none other) fun ⟨k, p, next, word, _⟩ => by
    obtain rfl := Option.some.inj next
    rw [none] at word
    exact nomatch word

lemma binary_ne_call {op : TokenKind} {is : List Instr} (word : binary? op = some (p, is)) : op ≠ .leftParen := by
  rintro rfl
  exact nomatch word

lemma rank_binary {op : TokenKind} {is : List Instr} (word : binary? op = some (p, is))
    (l r : Expr .expression) : (Expr.binary op l r).rank = p.rank ∧ (Expr.binary op l r).ceiling = p.rank := by
  simp [Expr.rank, Expr.ceiling, word]

theorem Expr.Canonical.readsBack {s : ExprSort} {e : Expr s} (h : e.Canonical) : e.ReadsBack := by
  induction e with
  | number | string | this => exact fun _ _ _ _ _ _ after => .operators (by constructor) after
  | literal kind =>
    obtain ⟨i, word⟩ := h
    exact fun _ _ _ _ _ _ after => .operators (.literal word) after
  | name x =>
    intro least ws rest whole tight precedes after
    exact .operators (.name fun target => precedes.noTarget target.2) after
  | superGet m =>
    intro least ws rest whole tight precedes after
    have uncalled : nextKind ws ≠ some .leftParen := fun call => Bool.false_ne_true (precedes.call call)
    exact .operators (.superGet uncalled) after
  | assign x value ih =>
    intro least ws rest whole tight precedes after
    obtain rfl := eq_assignment tight
    have stops : ¬Continues .assignment ws := precedes.ends rfl
    have inner := (ih h).alone (Nat.zero_le _)
      (precedes.operand (Nat.zero_le _) (show (0 : Nat) < _ by decide)) stops
    exact .operators (.assign inner) after
  | superCall m args ih =>
    intro least ws rest whole tight precedes after
    simp only [Expr.words, List.cons_append, List.append_assoc, List.nil_append]
    exact .operators (.superCall (ih h ws)) after
  | grouping e ih =>
    intro least ws rest whole tight precedes after
    have inner : ReadsExpr (e.words ++ .mark .rightParen :: ws) e (.mark .rightParen :: ws) :=
      (ih h).upTo rfl (by decide)
    rw [Expr.words, List.cons_append, List.append_assoc]
    exact .operators (.grouping inner) after
  | unary op e ih =>
    intro least ws rest whole tight precedes after
    obtain ⟨⟨i, word⟩, canonical, rank⟩ := h
    have inner : (Goal.operators .unary).Reads (e.words ++ ws) e ws := (ih canonical).alone rank
      (precedes.operand (ceiling_of_rank (p := .factor) (Nat.le_refl _) rank)
        (show Precedence.factor.rank < _ by decide)) (precedes.stops (show Precedence.factor.rank < _ by decide))
    exact .operators (.unary word inner) after
  | binary op l r ihl ihr =>
    intro least ws rest whole tight precedes after
    obtain ⟨p, is, word, left, leftTight, right, rightTight⟩ := h
    have loose := binary_loose word
    obtain ⟨rank, ceiling⟩ := rank_binary word l r
    have looser : (Expr.binary op l r).ceiling < Precedence.call.rank := by
      rw [ceiling]
      exact Nat.lt_of_le_of_lt loose (by decide)
    have second := (ihr right).alone rightTight
      (precedes.operand (ceiling ▸ ceiling_of_rank loose rightTight) looser)
      (precedes.stops (by rw [ceiling]; revert loose; cases p <;> decide))
    rw [Expr.words, List.append_assoc]
    rw [rank] at tight
    exact ihl left _ _ _ _ (Nat.le_trans tight (Nat.le_trans leftTight l.ceiling_le_rank))
      (.operator (binding?_binary word) leftTight (binary_ne_call word)) (.binary word tight second after)
  | and l r ihl ihr =>
    intro least ws rest whole tight precedes after
    obtain ⟨left, leftTight, right, rightTight⟩ := h
    have second : (Goal.operators .and).Reads (r.words ++ ws) r ws := (ihr right).alone rightTight
      (precedes.operand (ceiling_of_rank (p := .or) (by decide) rightTight)
        (show Precedence.or.rank < _ by decide)) (precedes.stops (show Precedence.or.rank < _ by decide))
    rw [Expr.words, List.append_assoc]
    exact ihl left _ _ _ _ (Nat.le_trans tight (Nat.le_trans leftTight l.ceiling_le_rank))
      (.operator rfl leftTight (by decide)) (.and tight second after)
  | or l r ihl ihr =>
    intro least ws rest whole tight precedes after
    obtain ⟨left, leftTight, right, rightTight⟩ := h
    have second : (Goal.operators .or).Reads (r.words ++ ws) r ws := (ihr right).alone rightTight
      (precedes.operand (Nat.zero_le _) (show (0 : Nat) < _ by decide)) (precedes.ends rfl)
    rw [Expr.words, List.append_assoc]
    exact ihl left _ _ _ _ (Nat.le_trans tight (Nat.le_trans leftTight l.ceiling_le_rank))
      (.operator rfl leftTight (by decide)) (.or tight second after)
  | call f args ihf ihargs =>
    intro least ws rest whole tight precedes after
    obtain ⟨callee, calleeTight, called, given⟩ := h
    simp only [Expr.words, List.cons_append, List.append_assoc, List.nil_append]
    exact ihf callee _ _ _ _ (Nat.le_trans tight (Nat.le_trans calleeTight f.ceiling_le_rank))
      (.callee calleeTight called) (.call tight (ihargs given ws) after)
  | get e p ih =>
    intro least ws rest whole tight precedes after
    obtain ⟨owner, ownerTight⟩ := h
    simp only [Expr.words, List.cons_append, List.append_assoc, List.nil_append]
    exact ih owner _ _ _ _ (Nat.le_trans tight (Nat.le_trans ownerTight e.ceiling_le_rank))
      (.operator rfl ownerTight (by decide))
      (.get tight (fun target => precedes.noTarget target.2)
        (fun call => Bool.false_ne_true (precedes.call call)) after)
  | set e p value ihe ihv =>
    intro least ws rest whole tight precedes after
    obtain ⟨owner, ownerTight, given⟩ := h
    obtain rfl := eq_assignment tight
    have stops : ¬Continues .assignment ws := precedes.ends rfl
    have inner := (ihv given).alone (Nat.zero_le _)
      (precedes.operand (Nat.zero_le _) (show (0 : Nat) < _ by decide)) stops
    simp only [Expr.words, List.cons_append, List.append_assoc]
    exact ihe owner _ _ _ _ (Nat.zero_le _) (.operator rfl ownerTight (by decide))
      (.set (by decide) rfl inner after)
  | invoke e p args ihe ihargs =>
    intro least ws rest whole tight precedes after
    obtain ⟨owner, ownerTight, given⟩ := h
    simp only [Expr.words, List.cons_append, List.append_assoc, List.nil_append]
    exact ihe owner _ _ _ _ (Nat.le_trans tight (Nat.le_trans ownerTight e.ceiling_le_rank))
      (.operator rfl ownerTight (by decide)) (.invoke tight (ihargs given ws) after)
  | noArguments => exact fun _ => .noArguments
  | someArguments args ih => exact fun ws => .someArguments (ih h ws)
  | lastArgument e ih => exact fun ws => .lastArgument ((ih h).upTo rfl (by decide)) (by simp [nextKind])
  | argument e args ihe ihargs =>
    intro ws
    rw [Expr.words, List.append_assoc]
    exact .argument ((ihe h.1).upTo rfl (by decide)) (ihargs h.2 ws)

/-! ## What is read is canonical -/

/-- What was read for the goal is canonical and binds tightly enough, and the words after it do not
belong to it.  For operators after an operand this is so if it is so of the operand. -/
def Goal.Closes : {s : ExprSort} → Goal s → List Word → Expr s → List Word → Prop
  | _, .operand ca, _, e, rest =>
    e.Canonical ∧ (ca = false → Precedence.unary.rank ≤ e.rank) ∧ e.Closed rest
  | _, .operators least, _, e, rest =>
    least ≤ .unary → e.Canonical ∧ least.rank ≤ e.rank ∧ e.Closed rest ∧ ¬Continues least rest
  | _, .after least left, ws, e, rest =>
    least ≤ .unary → left.Canonical → least.rank ≤ left.rank → left.Closed ws →
      e.Canonical ∧ least.rank ≤ e.rank ∧ e.Closed rest ∧ ¬Continues least rest
  | _, .argumentList, _, args, _ => args.Canonical
  | _, .arguments, _, args, _ => args.Canonical

/-- Where reading stopped, only looser operators come. -/
lemma Expr.Closed.of_stops (loose : least ≤ .call) (stops : ¬Continues least ws)
    (looser : ∀ q : Precedence, q.rank < least.rank → q.rank ≤ e.ceiling) : e.Closed ws where
  operators k q next word :=
    looser q (Nat.lt_of_not_le fun binds => stops ⟨k, q, next, word, binds⟩)
  call next := absurd ⟨_, _, next, rfl, loose⟩ stops

/-- Any operator may come after what binds as tightly as a call. -/
lemma Expr.Closed.tight (tight : Precedence.call.rank ≤ e.ceiling)
    (called : nextKind ws = some .leftParen → e.takesCall) : e.Closed ws where
  operators _ _ _ word := Nat.le_trans (binding_bounds word).2 tight
  call := called

/-- A primary expression takes nothing from behind. -/
lemma Expr.closes_primary {ca : Bool} (canonical : e.Canonical) (rank : e.rank = Precedence.primary.rank)
    (ceiling : e.ceiling = Precedence.primary.rank)
    (called : nextKind rest = some .leftParen → e.takesCall) :
    (Goal.operand ca).Closes ws e rest :=
  ⟨canonical, fun _ => by rw [rank]; decide, .tight (by rw [ceiling]; decide) called⟩

lemma precedence_loose {least : Precedence} (loose : least ≤ .unary) : least ≤ .call :=
  Nat.le_trans (show least.rank ≤ Precedence.unary.rank from loose) (by decide)

theorem Goal.Reads.closes {s : ExprSort} {g : Goal s} {ws rest : List Word} {e : Expr s}
    (h : g.Reads ws e rest) : g.Closes ws e rest := by
  -- The induction is on the reading.  What stands on the left of the next operator has been closed by
  -- then, so with its right operand it is canonical, and closed by where that operand has ended.
  induction h with
  | number | string | this => exact Expr.closes_primary trivial rfl rfl fun _ => rfl
  | literal word => exact Expr.closes_primary ⟨_, word⟩ rfl rfl fun _ => rfl
  | name ends => exact Expr.closes_primary trivial rfl rfl fun _ => rfl
  | assign reads ih =>
    obtain ⟨canonical, -, -, stops⟩ := ih (by decide)
    exact ⟨canonical, nofun, .of_stops (by decide) stops fun _ less => absurd less (Nat.not_lt_zero _)⟩
  | superGet ends => exact Expr.closes_primary trivial rfl rfl fun call => absurd call ends
  | superCall reads ih => exact Expr.closes_primary ih rfl rfl fun _ => rfl
  | grouping reads ih => exact Expr.closes_primary (ih (by decide)).1 rfl rfl fun _ => rfl
  | unary word reads ih =>
    obtain ⟨canonical, rank, -, stops⟩ := ih (Nat.le_refl _)
    exact ⟨⟨⟨_, word⟩, canonical, rank⟩, fun _ => Nat.le_refl _,
      .of_stops (by decide) stops fun _ less => Nat.le_of_lt_succ less⟩
  | @operators least ws left mid e rest first others ih ih' =>
    intro loose
    obtain ⟨canonical, rank, closed⟩ := ih
    refine ih' loose canonical ?_ closed
    cases assigns : Goal.canAssign least with
    | false => exact Nat.le_trans loose (rank assigns)
    | true => exact Nat.le_trans (of_decide_eq_true assigns) (Nat.zero_le _)
  | done ends => exact fun loose canonical rank closed => ⟨canonical, rank, closed, ends⟩
  | call binds reads others ih ih' =>
    intro loose canonical rank closed
    exact ih' loose ⟨canonical, closed.operators _ _ rfl rfl, closed.call rfl, ih⟩ binds
      (.tight (Nat.le_refl _) fun _ => rfl)
  | get binds ends uncalled others ih =>
    intro loose canonical rank closed
    exact ih loose ⟨canonical, closed.operators _ _ rfl rfl⟩ binds
      (.tight (Nat.le_refl _) fun call => absurd call uncalled)
  | set binds assigns reads others ih ih' =>
    intro loose canonical rank closed
    obtain ⟨given, -, -, stops⟩ := ih (by decide)
    exact ih' loose ⟨canonical, closed.operators _ _ rfl rfl, given⟩ (of_decide_eq_true assigns)
      (.of_stops (by decide) stops fun _ less => absurd less (Nat.not_lt_zero _))
  | invoke binds reads others ih ih' =>
    intro loose canonical rank closed
    exact ih' loose ⟨canonical, closed.operators _ _ rfl rfl, ih⟩ binds
      (.tight (Nat.le_refl _) fun _ => rfl)
  | @binary least left op p is ws right mid e rest word binds reads others ih ih' =>
    intro loose canonical rank closed
    obtain ⟨second, rightRank, -, stops⟩ := ih (next_le_unary (binary_loose word))
    obtain ⟨whole, ceiling⟩ := rank_binary word left right
    refine ih' loose ⟨p, is, word, canonical, closed.operators _ _ rfl (binding?_binary word), second, rightRank⟩
      (by rw [whole]; exact binds) ?_
    have looser := noTighter_of_next stops
    exact ⟨fun k q next binds => by rw [ceiling]; exact looser k q next binds,
      fun next => absurd ⟨_, _, next, rfl, precedence_loose (next_le_unary (binary_loose word))⟩ stops⟩
  | and binds reads others ih ih' =>
    intro loose canonical rank closed
    obtain ⟨second, rightRank, -, stops⟩ := ih (by decide)
    exact ih' loose ⟨canonical, closed.operators _ _ rfl rfl, second, rightRank⟩ binds
      (.of_stops (by decide) stops fun _ less => Nat.le_of_lt_succ less)
  | or binds reads others ih ih' =>
    intro loose canonical rank closed
    obtain ⟨second, rightRank, -, stops⟩ := ih (by decide)
    exact ih' loose ⟨canonical, closed.operators _ _ rfl rfl, second, rightRank⟩ binds
      (.of_stops (by decide) stops fun _ less => Nat.le_of_lt_succ less)
  | noArguments => exact trivial
  | someArguments reads ih => exact ih
  | lastArgument reads ends ih => exact (ih (by decide)).1
  | argument first others ih ih' => exact ⟨(ih (by decide)).1, ih'⟩

/-- The words of an expression group into it again exactly if it is canonical. -/
theorem Expr.reads_iff_canonical :
    ReadsExpr (e.words ++ .mark .semicolon :: ws) e (.mark .semicolon :: ws) ↔ e.Canonical :=
  ⟨fun reads => (Goal.Reads.closes reads (by decide)).1, fun canonical => canonical.readsBack.upTo rfl (by decide)⟩

end Lox.Syntax
