import Lox.Proofs.Syntax.Grammar
import Mathlib.Tactic.ByContra

/-!
# Derivations

The grammar of the language as it is usually written down: productions for each nonterminal, with
one nonterminal for each precedence of operators and repetition on the left
(`term → factor | term ("-" | "+") factor`).  Nothing here knows how words are read.

Whatever can be read can be derived (`Stmt.Reads.derives`).  The reader takes operators one after
the other and asks only how tightly the next one binds, so the invariant is about the words that
have been taken so far: they are derived at some precedence, and no operator that binds more
tightly than that comes next (`Operand`).
-/

namespace Lox.Syntax

open Compile

/-! ## The grammar -/

/-- The nonterminals. -/
inductive Nonterminal where
  | program | declarations | declaration | methods | function | parameters | names
  | binding | initializer | statement | clause
  | expression | assignment | logicOr | logicAnd | equality | comparison | term | factor | unary
  | call | primary | arguments | expressions

open Nonterminal

/-- The operators of a nonterminal for a binary operation, and the nonterminal of the operands on
the right of them. -/
inductive BinaryOperator : Nonterminal → TokenKind → Nonterminal → Prop where
  | or : BinaryOperator logicOr .kwOr logicAnd
  | and : BinaryOperator logicAnd .kwAnd equality
  | equal : BinaryOperator equality .equalEqual comparison
  | unequal : BinaryOperator equality .bangEqual comparison
  | less : BinaryOperator comparison .less term
  | lessEqual : BinaryOperator comparison .lessEqual term
  | greater : BinaryOperator comparison .greater term
  | greaterEqual : BinaryOperator comparison .greaterEqual term
  | plus : BinaryOperator term .plus factor
  | minus : BinaryOperator term .minus factor
  | times : BinaryOperator factor .star unary
  | over : BinaryOperator factor .slash unary

/-- Words that can be derived from a nonterminal. -/
inductive Derives : Nonterminal → List Word → Prop where
  -- declarations
  | program {ds} (all : Derives declarations ds) : Derives program ds
  | noDeclarations : Derives declarations []
  | declare {d ds} (first : Derives declaration d) (others : Derives declarations ds) :
      Derives declarations (d ++ ds)
  | cls {x ms} (body : Derives methods ms) :
      Derives declaration
        (.mark .kwClass :: .name x :: .mark .leftBrace :: (ms ++ [.mark .rightBrace]))
  | subclass {x y ms} (body : Derives methods ms) :
      Derives declaration
        (.mark .kwClass :: .name x :: .mark .less :: .name y :: .mark .leftBrace ::
          (ms ++ [.mark .rightBrace]))
  | noMethods : Derives methods []
  | method {f ms} (first : Derives function f) (others : Derives methods ms) :
      Derives methods (f ++ ms)
  | fun_ {f} (whole : Derives function f) : Derives declaration (.mark .kwFun :: f)
  | function {x ps ds} (params : Derives parameters ps) (body : Derives declarations ds) :
      Derives function
        (.name x :: .mark .leftParen ::
          (ps ++ .mark .rightParen :: .mark .leftBrace :: (ds ++ [.mark .rightBrace])))
  | noParameters : Derives parameters []
  | someParameters {xs} (all : Derives names xs) : Derives parameters xs
  | lastName {x} : Derives names [.name x]
  | nextName {x xs} (others : Derives names xs) : Derives names (.name x :: .mark .comma :: xs)
  | var {v} (whole : Derives binding v) : Derives declaration v
  | unset {x} : Derives binding [.mark .kwVar, .name x, .mark .semicolon]
  | set {x e} (value : Derives expression e) :
      Derives binding (.mark .kwVar :: .name x :: .mark .equal :: (e ++ [.mark .semicolon]))
  | statement {s} (whole : Derives statement s) : Derives declaration s
  -- statements
  | simple {e} (value : Derives expression e) : Derives statement (e ++ [.mark .semicolon])
  | print {e} (value : Derives expression e) :
      Derives statement (.mark .kwPrint :: (e ++ [.mark .semicolon]))
  | ret {e} (value : Derives clause e) :
      Derives statement (.mark .kwReturn :: (e ++ [.mark .semicolon]))
  | block {ds} (body : Derives declarations ds) :
      Derives statement (.mark .leftBrace :: (ds ++ [.mark .rightBrace]))
  | ifThen {c s} (condition : Derives expression c) (branch : Derives statement s) :
      Derives statement (.mark .kwIf :: .mark .leftParen :: (c ++ .mark .rightParen :: s))
  | ifElse {c s s'} (condition : Derives expression c) (branch : Derives statement s)
      (otherwise : Derives statement s') :
      Derives statement
        (.mark .kwIf :: .mark .leftParen :: (c ++ .mark .rightParen :: (s ++ .mark .kwElse :: s')))
  | whileLoop {c s} (condition : Derives expression c) (body : Derives statement s) :
      Derives statement (.mark .kwWhile :: .mark .leftParen :: (c ++ .mark .rightParen :: s))
  | forLoop {i c e s} (first : Derives initializer i) (condition : Derives clause c)
      (step : Derives clause e) (body : Derives statement s) :
      Derives statement
        (.mark .kwFor :: .mark .leftParen ::
          (i ++ (c ++ .mark .semicolon :: (e ++ .mark .rightParen :: s))))
  | noInitializer : Derives initializer [.mark .semicolon]
  | varInitializer {v} (whole : Derives binding v) : Derives initializer v
  | simpleInitializer {e} (value : Derives expression e) :
      Derives initializer (e ++ [.mark .semicolon])
  | noClause : Derives clause []
  | someClause {e} (value : Derives expression e) : Derives clause e
  -- expressions
  | expression {e} (whole : Derives assignment e) : Derives expression e
  | assign {x e} (value : Derives assignment e) :
      Derives assignment (.name x :: .mark .equal :: e)
  | assignProperty {c x e} (target : Derives call c) (value : Derives assignment e) :
      Derives assignment (c ++ .mark .dot :: .name x :: .mark .equal :: e)
  | or {e} (whole : Derives logicOr e) : Derives assignment e
  | operator {n op n' l r} (kind : BinaryOperator n op n') (left : Derives n l)
      (right : Derives n' r) : Derives n (l ++ .mark op :: r)
  | operand {n op n' e} (kind : BinaryOperator n op n') (whole : Derives n' e) : Derives n e
  | not {e} (value : Derives unary e) : Derives unary (.mark .bang :: e)
  | negate {e} (value : Derives unary e) : Derives unary (.mark .minus :: e)
  | call {e} (whole : Derives call e) : Derives unary e
  | primary {e} (whole : Derives primary e) : Derives call e
  | invoke {c args} (callee : Derives call c) (given : Derives arguments args) :
      Derives call (c ++ .mark .leftParen :: (args ++ [.mark .rightParen]))
  | get {c x} (owner : Derives call c) : Derives call (c ++ [.mark .dot, .name x])
  | noArguments : Derives arguments []
  | someArguments {es} (all : Derives expressions es) : Derives arguments es
  | lastExpression {e} (value : Derives expression e) : Derives expressions e
  | nextExpression {e es} (value : Derives expression e) (others : Derives expressions es) :
      Derives expressions (e ++ .mark .comma :: es)
  | true_ : Derives primary [.mark .kwTrue]
  | false_ : Derives primary [.mark .kwFalse]
  | nil : Derives primary [.mark .kwNil]
  | this : Derives primary [.mark .kwThis]
  | number {text} : Derives primary [⟨.number, text⟩]
  | string {text} : Derives primary [⟨.string, text⟩]
  | name {x} : Derives primary [.name x]
  | grouping {e} (inner : Derives expression e) :
      Derives primary (.mark .leftParen :: (e ++ [.mark .rightParen]))
  | super {x} : Derives primary [.mark .kwSuper, .mark .dot, .name x]

/-! ## Precedences -/

/-- The nonterminal of the expressions whose operators bind at least as tightly. -/
def Nonterminal.of : Precedence → Nonterminal
  | .assignment => .assignment
  | .or => .logicOr
  | .and => .logicAnd
  | .equality => .equality
  | .comparison => .comparison
  | .term => .term
  | .factor => .factor
  | .unary => .unary
  | .call => .call
  | .primary => .primary

lemma Precedence.rank_next {p q : Precedence} (looser : p.rank < q.rank) :
    p.next.rank = p.rank + 1 := by
  cases p with
  | primary => cases q <;> exact absurd looser (by decide)
  | _ => rfl

lemma Precedence.eq_of_rank {p q : Precedence} (same : p.rank = q.rank) : p = q := by
  cases p <;> cases q <;> first | rfl | exact absurd same (by decide)

/-- What binds one step more tightly may stand wherever the looser may. -/
lemma Derives.ofNext {p : Precedence} {e : List Word} (h : Derives (.of p.next) e) :
    Derives (.of p) e := by
  cases p with
  | assignment => exact .or h
  | or => exact .operand .or h
  | and => exact .operand .and h
  | equality => exact .operand .equal h
  | comparison => exact .operand .less h
  | term => exact .operand .plus h
  | factor => exact .operand .times h
  | unary => exact .call h
  | call => exact .primary h
  | primary => exact h

/-- What binds more tightly may stand wherever something looser may. -/
lemma Derives.loosen {p q : Precedence} {e : List Word} (h : Derives (.of q) e) (le : p ≤ q) :
    Derives (.of p) e := by
  obtain ⟨d, distance⟩ := Nat.exists_eq_add_of_le (show p.rank ≤ q.rank from le)
  induction d generalizing p with
  | zero =>
    obtain rfl := Precedence.eq_of_rank distance
    exact h
  | succ d ih =>
    have next := Precedence.rank_next (p := p) (q := q) (by omega)
    exact (ih (show p.next.rank ≤ q.rank by omega) (by omega)).ofNext

/-- Operators of one kind may be grouped to the right as well, if there are no others of their
precedence. -/
lemma Derives.chain {n n' : Nonterminal} {op : TokenKind} {l r : List Word}
    (kind : BinaryOperator n op n')
    (only : ∀ {op' m}, BinaryOperator n op' m → op' = op ∧ m = n')
    (left : Derives n l) (right : Derives n r) : Derives n (l ++ .mark op :: r) := by
  induction right with
  | operator kind' _ second ih _ =>
    obtain ⟨rfl, rfl⟩ := only kind'
    have whole := Derives.operator kind (ih kind only left) second
    simpa only [List.append_assoc, List.cons_append] using whole
  | operand kind' whole =>
    obtain ⟨rfl, rfl⟩ := only kind'
    exact .operator kind left whole
  | _ => nomatch kind

/-! ## Operators -/

/-- No operator that binds more tightly than `p` comes next. -/
def NoTighter (p : Precedence) (ws : List Word) : Prop :=
  ∀ kind q, nextKind ws = some kind → binding? kind = some q → q ≤ p

lemma noTighter_call (ws : List Word) : NoTighter .call ws :=
  fun _ _ _ operator => (binding_bounds operator).2

lemma noTighter_primary (ws : List Word) : NoTighter .primary ws :=
  fun kind q next operator =>
    Nat.le_succ_of_le (show q.rank ≤ 8 from noTighter_call ws kind q next operator)

/-- After the operators that bind at least as tightly as `p` come looser ones. -/
lemma NoTighter.of_stops {p : Precedence} {ws : List Word} (stops : ¬Continues p ws) :
    NoTighter p ws := by
  intro kind q next operator
  by_contra tighter
  exact stops ⟨kind, q, next, operator, Nat.le_of_lt (Nat.not_le.1 tighter)⟩

lemma noTighter_of_next {p : Precedence} {ws : List Word} (stops : ¬Continues p.next ws) :
    NoTighter p ws := by
  intro kind q next operator
  by_contra tighter
  have lt : p.rank < q.rank := Nat.not_le.1 tighter
  have step := Precedence.rank_next lt
  exact stops ⟨kind, q, next, operator, show p.next.rank ≤ q.rank by omega⟩

lemma next_le_unary {p : Precedence} (loose : p ≤ .factor) : p.next ≤ .unary := by
  revert loose
  cases p <;> decide

/-- An operator of two operands stands between a left one of its own precedence and a right one of
the next. -/
lemma binaryOperator_of_binary {op : TokenKind} {p : Precedence} {is : List Instr}
    (operator : binary? op = some (p, is)) : BinaryOperator (.of p) op (.of p.next) := by
  cases op <;> cases operator <;> constructor

/-- A literal is a primary expression. -/
lemma Derives.literal {kind : TokenKind} {i : Instr} (word : value? kind = some i) :
    Derives .primary [.mark kind] := by
  cases kind <;> cases word
  · exact .false_
  · exact .nil
  · exact .true_

/-- What stands before a single operand goes with unary expressions. -/
lemma Derives.prefixed {op : TokenKind} {i : Instr} {e : List Word}
    (word : unary? op = some i) (value : Derives .unary e) :
    Derives .unary (.mark op :: e) := by
  cases op <;> cases word
  · exact .negate value
  · exact .not value

/-! ## Expressions -/

/-- What is derived from the words that are read for a goal, where `rest` is left. -/
def Goal.Derived (used rest : List Word) : {s : ExprSort} → Goal s → Prop
  | _, .operand canAssign =>
    ∃ p, Derives (.of p) used ∧ NoTighter p rest ∧ (canAssign = false → .unary ≤ p)
  | _, .operators least => least ≤ .unary → Derives (.of least) used ∧ ¬Continues least rest
  | _, .after least _ =>
    ∀ before p, least ≤ .unary → least ≤ p → Derives (.of p) before → NoTighter p (used ++ rest) →
      Derives (.of least) (before ++ used) ∧ ¬Continues least rest
  | _, .argumentList => ∃ args, used = args ++ [.mark .rightParen] ∧ Derives .arguments args
  | _, .arguments => Derives .expressions used

lemma canAssign_of {least : Precedence} (assigns : Goal.canAssign least = true) :
    least = .assignment := by
  cases least <;> first | rfl | exact absurd assigns (by decide)

lemma unary_le {least p : Precedence} (loose : least ≤ .unary)
    (bound : Goal.canAssign least = false → .unary ≤ p) : least ≤ p := by
  cases assigns : Goal.canAssign least with
  | true =>
    rw [canAssign_of assigns]
    exact Nat.zero_le _
  | false => exact Nat.le_trans loose (bound assigns)

/-- Whatever is read as an expression can be derived. -/
theorem Goal.Reads.derives {s : ExprSort} {g : Goal s} {ws rest : List Word} {e : Expr s}
    (h : g.Reads ws e rest) : ∃ used, ws = used ++ rest ∧ g.Derived used rest := by
  induction h with
  | number => exact ⟨_, rfl, .primary, .number, noTighter_primary _, fun _ => by decide⟩
  | string => exact ⟨_, rfl, .primary, .string, noTighter_primary _, fun _ => by decide⟩
  | literal word => exact ⟨_, rfl, .primary, .literal word, noTighter_primary _, fun _ => by decide⟩
  | name => exact ⟨_, rfl, .primary, .name, noTighter_primary _, fun _ => by decide⟩
  | this => exact ⟨_, rfl, .primary, .this, noTighter_primary _, fun _ => by decide⟩
  | superGet => exact ⟨_, rfl, .primary, .super, noTighter_primary _, fun _ => by decide⟩
  | assign _ ih =>
    obtain ⟨used, rfl, derived⟩ := ih
    obtain ⟨value, stops⟩ := derived (by decide)
    exact ⟨_, rfl, .assignment, .assign value, .of_stops stops, fun plain => nomatch plain⟩
  | superCall _ ih =>
    obtain ⟨used, rfl, args, rfl, given⟩ := ih
    refine ⟨.mark .kwSuper :: .mark .dot :: .name _ :: .mark .leftParen :: (args ++ [Word.mark .rightParen]),
      rfl, .call, ?_, noTighter_call _, fun _ => by decide⟩
    exact .invoke (.primary .super) given
  | grouping _ ih =>
    obtain ⟨used, rfl, derived⟩ := ih
    obtain ⟨inner, -⟩ := derived (by decide)
    refine ⟨_, (List.append_assoc (.mark .leftParen :: used) [.mark .rightParen] _).symm, .primary, ?_,
      noTighter_primary _, fun _ => by decide⟩
    exact .grouping (.expression inner)
  | unary word _ ih =>
    obtain ⟨used, rfl, derived⟩ := ih
    obtain ⟨value, stops⟩ := derived (Nat.le_refl _)
    exact ⟨_, rfl, .unary, .prefixed word value, .of_stops stops, fun _ => Nat.le_refl _⟩
  | operators _ _ ih ih' =>
    obtain ⟨first, rfl, p, left, tight, bound⟩ := ih
    obtain ⟨others, rfl, derived⟩ := ih'
    refine ⟨first ++ others, (List.append_assoc _ _ _).symm, fun loose => ?_⟩
    exact derived first p loose (unary_le loose bound) left tight
  | done stops =>
    refine ⟨[], rfl, fun before p _ le derived _ => ⟨?_, stops⟩⟩
    rw [List.append_nil]
    exact derived.loosen le
  | call binds _ _ ih ih' =>
    obtain ⟨_, rfl, args, rfl, given⟩ := ih
    obtain ⟨others, rfl, derived⟩ := ih'
    refine ⟨Word.mark .leftParen :: (args ++ [Word.mark .rightParen]) ++ others, by simp,
      fun before p loose le left tight => ?_⟩
    have callee := left.loosen (tight _ _ rfl rfl)
    have whole := derived _ .call loose binds (.invoke callee given) (noTighter_call _)
    simpa using whole
  | @get _ _ x _ _ _ binds _ _ _ ih =>
    obtain ⟨others, rfl, derived⟩ := ih
    refine ⟨.mark .dot :: .name x :: others, rfl, fun before p loose le left tight => ?_⟩
    have owner := left.loosen (tight _ _ rfl rfl)
    have whole := derived _ .call loose binds (.get (x := x) owner) (noTighter_call _)
    simpa using whole
  | @set _ _ x _ _ _ _ _ binds assigns _ _ ih ih' =>
    obtain rfl := canAssign_of assigns
    obtain ⟨used, rfl, value⟩ := ih
    obtain ⟨others, rfl, derived⟩ := ih'
    obtain ⟨value, stops⟩ := value (by decide)
    refine ⟨.mark .dot :: .name x :: .mark .equal :: (used ++ others), by simp,
      fun before p loose le left tight => ?_⟩
    have target := left.loosen (tight _ _ rfl rfl)
    have whole := derived _ .assignment loose (Nat.le_refl _) (.assignProperty (x := x) target value) (.of_stops stops)
    simpa using whole
  | @invoke _ _ x _ _ _ _ _ binds _ _ ih ih' =>
    obtain ⟨_, rfl, args, rfl, given⟩ := ih
    obtain ⟨others, rfl, derived⟩ := ih'
    refine ⟨Word.mark .dot :: Word.name x :: Word.mark .leftParen :: (args ++ [Word.mark .rightParen]) ++
      others, by simp,
      fun before p loose le left tight => ?_⟩
    have owner := left.loosen (tight _ _ rfl rfl)
    have whole := derived _ .call loose binds (.invoke (.get (x := x) owner) given) (noTighter_call _)
    simpa using whole
  | @binary _ _ op _ _ _ _ _ _ _ word binds _ _ ih ih' =>
    obtain ⟨used, rfl, right⟩ := ih
    obtain ⟨others, rfl, derived⟩ := ih'
    obtain ⟨right, stops⟩ := right (next_le_unary (binary_loose word))
    refine ⟨.mark op :: (used ++ others), by simp, fun before p loose le left tight => ?_⟩
    have left := left.loosen (tight _ _ rfl (binding?_binary word))
    have whole := Derives.operator (binaryOperator_of_binary word) left right
    have rest := derived _ _ loose binds whole (noTighter_of_next stops)
    simpa using rest
  | and binds _ _ ih ih' =>
    obtain ⟨used, rfl, right⟩ := ih
    obtain ⟨others, rfl, derived⟩ := ih'
    obtain ⟨right, stops⟩ := right (by decide)
    refine ⟨.mark .kwAnd :: (used ++ others), by simp, fun before p loose le left tight => ?_⟩
    have whole := Derives.chain .and (fun | .and => ⟨rfl, rfl⟩) (left.loosen (tight _ _ rfl rfl)) right
    have rest := derived _ .and loose binds whole (.of_stops stops)
    simpa using rest
  | or binds _ _ ih ih' =>
    obtain ⟨used, rfl, right⟩ := ih
    obtain ⟨others, rfl, derived⟩ := ih'
    obtain ⟨right, stops⟩ := right (by decide)
    refine ⟨.mark .kwOr :: (used ++ others), by simp, fun before p loose le left tight => ?_⟩
    have whole := Derives.chain .or (fun | .or => ⟨rfl, rfl⟩) (left.loosen (tight _ _ rfl rfl)) right
    have rest := derived _ .or loose binds whole (.of_stops stops)
    simpa using rest
  | noArguments => exact ⟨_, rfl, [], rfl, .noArguments⟩
  | someArguments _ ih =>
    obtain ⟨used, rfl, all⟩ := ih
    exact ⟨used ++ [Word.mark .rightParen], by simp, used, rfl, .someArguments all⟩
  | lastArgument _ _ ih =>
    obtain ⟨used, rfl, derived⟩ := ih
    exact ⟨used, rfl, Derives.lastExpression (.expression (derived (by decide)).1)⟩
  | argument _ _ ih ih' =>
    obtain ⟨used, rfl, derived⟩ := ih
    obtain ⟨others, rfl, all⟩ := ih'
    exact ⟨used ++ .mark .comma :: others, by simp,
      Derives.nextExpression (.expression (derived (by decide)).1) all⟩

lemma ReadsExpr.derives {ws rest : List Word} {e : Expr .expression} (h : ReadsExpr ws e rest) :
    ∃ used, ws = used ++ rest ∧ Derives .expression used := by
  obtain ⟨used, split, derived⟩ := Goal.Reads.derives h
  exact ⟨used, split, .expression (derived (by decide)).1⟩

/-! ## Statements -/

lemma ReadsClause.derives {stop : TokenKind} {ws rest : List Word} {e : Option (Expr .expression)}
    (h : ReadsClause stop ws e rest) :
    ∃ used, ws = used ++ .mark stop :: rest ∧ Derives .clause used := by
  cases h with
  | none => exact ⟨[], rfl, .noClause⟩
  | some reads =>
    obtain ⟨used, rfl, derived⟩ := reads.derives
    exact ⟨used, rfl, .someClause derived⟩

lemma ReadsBinding.derives {ws rest : List Word} {x : String} {value : Option (Expr .expression)}
    (h : ReadsBinding ws x value rest) :
    ∃ used, ws = used ++ rest ∧ Derives .binding (.mark .kwVar :: used) := by
  cases h with
  | none => exact ⟨[.name x, .mark .semicolon], rfl, .unset⟩
  | some reads =>
    obtain ⟨used, rfl, derived⟩ := reads.derives
    exact ⟨.name x :: .mark .equal :: (used ++ [Word.mark .semicolon]), by simp, .set derived⟩

lemma Initializer.Reads.derives {ws rest : List Word} {first : Initializer}
    (h : Initializer.Reads ws first rest) :
    ∃ used, ws = used ++ rest ∧ Derives .initializer used := by
  cases h with
  | none => exact ⟨[.mark .semicolon], rfl, .noInitializer⟩
  | var reads =>
    obtain ⟨used, rfl, derived⟩ := reads.derives
    exact ⟨_, rfl, .varInitializer derived⟩
  | expression reads =>
    obtain ⟨used, rfl, derived⟩ := reads.derives
    exact ⟨used ++ [Word.mark .semicolon], by simp, .simpleInitializer derived⟩

lemma paramWords_derives (params : List String) :
    ∃ ps, paramWords params = ps ++ [.mark .rightParen] ∧ Derives .parameters ps := by
  cases params with
  | nil => exact ⟨[], rfl, .noParameters⟩
  | cons x xs =>
    have all : ∃ ps, paramWords (x :: xs) = ps ++ [Word.mark .rightParen] ∧ Derives .names ps := by
      induction xs generalizing x with
      | nil => exact ⟨[.name x], rfl, .lastName⟩
      | cons y ys ih =>
        obtain ⟨ps, split, derived⟩ := ih y
        refine ⟨.name x :: .mark .comma :: ps, ?_, .nextName derived⟩
        rw [paramWords, split]
        · rfl
        · exact fun none => nomatch none
    obtain ⟨ps, split, derived⟩ := all
    exact ⟨ps, split, .someParameters derived⟩

/-- What is derived from the words of a phrase. -/
abbrev StmtSort.nonterminal : StmtSort → Nonterminal
  | .statement => .statement
  | .declaration => .declaration
  | .declarations => .declarations
  | .methods => .methods

/-- Whatever is read as a statement, a declaration or a sequence of them can be derived. -/
theorem Stmt.Reads.derives {s : StmtSort} {ws rest : List Word} {t : Stmt s}
    (h : Stmt.Reads ws t rest) : ∃ used, ws = used ++ rest ∧ Derives s.nonterminal used := by
  induction h with
  | print reads =>
    obtain ⟨used, rfl, derived⟩ := reads.derives
    exact ⟨.mark .kwPrint :: (used ++ [Word.mark .semicolon]), by simp, .print derived⟩
  | expression reads =>
    obtain ⟨used, rfl, derived⟩ := reads.derives
    exact ⟨used ++ [Word.mark .semicolon], by simp, .simple derived⟩
  | ret reads =>
    obtain ⟨used, rfl, derived⟩ := reads.derives
    exact ⟨.mark .kwReturn :: (used ++ [Word.mark .semicolon]), by simp, .ret derived⟩
  | ifThen condition _ _ ih =>
    obtain ⟨c, rfl, derived⟩ := condition.derives
    obtain ⟨t, rfl, branch⟩ := ih
    exact ⟨.mark .kwIf :: .mark .leftParen :: (c ++ .mark .rightParen :: t), by simp,
      .ifThen derived branch⟩
  | ifElse condition _ _ ih ih' =>
    obtain ⟨c, rfl, derived⟩ := condition.derives
    obtain ⟨t, rfl, branch⟩ := ih
    obtain ⟨e, rfl, otherwise⟩ := ih'
    exact ⟨.mark .kwIf :: .mark .leftParen ::
      (c ++ .mark .rightParen :: (t ++ .mark .kwElse :: e)), by simp,
      .ifElse derived branch otherwise⟩
  | whileLoop condition _ ih =>
    obtain ⟨c, rfl, derived⟩ := condition.derives
    obtain ⟨body, rfl, inner⟩ := ih
    exact ⟨.mark .kwWhile :: .mark .leftParen :: (c ++ .mark .rightParen :: body), by simp,
      .whileLoop derived inner⟩
  | forLoop start condition increment _ ih =>
    obtain ⟨i, rfl, first⟩ := start.derives
    obtain ⟨c, rfl, test⟩ := condition.derives
    obtain ⟨e, rfl, step⟩ := increment.derives
    obtain ⟨body, rfl, inner⟩ := ih
    exact ⟨.mark .kwFor :: .mark .leftParen ::
      (i ++ (c ++ .mark .semicolon :: (e ++ .mark .rightParen :: body))), by simp,
      .forLoop first test step inner⟩
  | block _ ih =>
    obtain ⟨ds, rfl, inner⟩ := ih
    exact ⟨.mark .leftBrace :: (ds ++ [Word.mark .rightBrace]), by simp, .block inner⟩
  | statement _ ih =>
    obtain ⟨used, rfl, whole⟩ := ih
    exact ⟨used, rfl, .statement whole⟩
  | var reads =>
    obtain ⟨used, rfl, whole⟩ := reads.derives
    exact ⟨_, rfl, .var whole⟩
  | @function x params _ _ _ _ ih =>
    obtain ⟨ds, rfl, body⟩ := ih
    obtain ⟨ps, split, given⟩ := paramWords_derives params
    exact ⟨.mark .kwFun :: .name x :: .mark .leftParen ::
      (ps ++ Word.mark .rightParen :: Word.mark .leftBrace :: (ds ++ [Word.mark .rightBrace])), by simp [split],
      .fun_ (.function given body)⟩
  | @cls x superclass _ _ _ _ ih =>
    obtain ⟨ms, rfl, body⟩ := ih
    cases superclass with
    | none =>
      exact ⟨.mark .kwClass :: .name x :: .mark .leftBrace :: (ms ++ [Word.mark .rightBrace]),
        by simp [superclassWords], .cls body⟩
    | some y =>
      exact ⟨.mark .kwClass :: .name x :: .mark .less :: .name y :: .mark .leftBrace ::
        (ms ++ [Word.mark .rightBrace]), by simp [superclassWords], .subclass body⟩
  | noDeclarations => exact ⟨[], rfl, .noDeclarations⟩
  | declare _ _ ih ih' =>
    obtain ⟨d, rfl, first⟩ := ih
    obtain ⟨ds, rfl, others⟩ := ih'
    exact ⟨d ++ ds, by simp, .declare first others⟩
  | noMethods => exact ⟨[], rfl, .noMethods⟩
  | @method x params _ _ _ _ _ _ _ ih ih' =>
    obtain ⟨ds, rfl, body⟩ := ih
    obtain ⟨ms, rfl, others⟩ := ih'
    obtain ⟨ps, split, given⟩ := paramWords_derives params
    exact ⟨.name x :: .mark .leftParen ::
      (ps ++ Word.mark .rightParen :: Word.mark .leftBrace :: (ds ++ [Word.mark .rightBrace])) ++ ms,
      by simp [split], .method (.function given body) others⟩

/-! ## The words of a derivation -/

/-- A word of the language: neither text that is no token nor the end of the source. -/
def IsLexeme (kind : TokenKind) : Prop :=
  kind ≠ .endOfInput ∧ ∀ fault, kind ≠ .malformed fault

lemma BinaryOperator.isLexeme {n n' : Nonterminal} {op : TokenKind} (h : BinaryOperator n op n') :
    IsLexeme op := by
  cases h <;> exact ⟨by decide, fun _ => by simp⟩

/-- Only words of the language are derived. -/
lemma Derives.isLexeme {n : Nonterminal} {ws : List Word} (h : Derives n ws) :
    ∀ w ∈ ws, IsLexeme w.kind := by
  induction h with
  | operator kind _ _ ih ih' =>
    have op := kind.isLexeme
    simp_all [or_imp]
  | _ => simp_all [IsLexeme, or_imp, forall_and]

/-! ## Targets of assignments -/

/-- Whatever is assigned to is named right before, when a word of kind `k` comes first. -/
def Named : TokenKind → List Word → Prop
  | _, [] => True
  | k, w :: ws => (w.kind = .equal → k = .identifier) ∧ Named w.kind ws

lemma named_append {k : TokenKind} {ws ws' : List Word} (after : ∀ k, Named k ws') :
    Named k (ws ++ ws') ↔ Named k ws := by
  induction ws generalizing k with
  | nil => exact iff_of_true (after k) trivial
  | cons w ws ih => exact and_congr_right fun _ => ih

lemma named_append_cons {k : TokenKind} {ws ws' : List Word} {w : Word} (before : Named k ws)
    (other : w.kind ≠ .equal) : Named k (ws ++ w :: ws') ↔ Named w.kind ws' := by
  induction ws generalizing k with
  | nil => exact and_iff_right fun equal => absurd equal other
  | cons v ws ih => exact (and_iff_right before.1).trans (ih before.2)

lemma Named.before {ws ws' : List Word} {w : Word} :
    ∀ {k : TokenKind}, Named k (ws ++ w :: .mark .equal :: ws') → w.kind = .identifier := by
  induction ws with
  | nil => exact fun named => named.2.1 rfl
  | cons _ ws ih => exact fun named => ih named.2

lemma BinaryOperator.ne_equal {n n' : Nonterminal} {op : TokenKind} (h : BinaryOperator n op n') :
    op ≠ .equal := by
  cases h <;> decide

/-- What is derived does not start with an assignment, so it may stand after any word. -/
lemma Derives.named {n : Nonterminal} {ws : List Word} (h : Derives n ws) : ∀ k, Named k ws := by
  induction h with
  | operator kind _ _ ih ih' =>
    have op := kind.ne_equal
    simp_all [named_append_cons]
  | _ => simp_all [named_append, named_append_cons, Named]

end Lox.Syntax
