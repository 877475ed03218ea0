import Lox.Proofs.Syntax.Tree
import Mathlib.Tactic.Lemma

/-!
# The grammar

How words are grouped into trees, read from the left with one word of lookahead: `g.Reads ws e rest`
says that words `ws` start with a phrase of the goal `g`, that its tree is `e`, and that `rest` is
left.  The rules follow the recursive descent of the compiler, so every decision is taken by the
next word and the precedence that is asked for, and a reading is unique.

Expressions are read in two parts: an operand, and the operators after it that bind tightly enough
(`Goal.after`), with the tree of what was read before as their left operand.
-/

namespace Lox.Syntax

open Compile

/-- The kind of the next word, as far as there is one. -/
def nextKind (ws : List Word) : Option TokenKind := ws.head?.map (·.kind)

/-! ## Expressions -/

/-- What an expression may be read as. -/
inductive Goal : ExprSort → Type where
  /-- Without operators behind it; may it be an assignment? -/
  | operand (canAssign : Bool) : Goal .expression
  /-- An operand with the operators that bind at least as tightly as `least`. -/
  | operators (least : Precedence) : Goal .expression
  /-- The operators after `left` that bind at least as tightly as `least`. -/
  | after (least : Precedence) (left : Expr .expression) : Goal .expression
  /-- Arguments up to the closing parenthesis. -/
  | argumentList : Goal .argumentList
  /-- Arguments with commas between them. -/
  | arguments : Goal .arguments

/-- May an expression be an assignment where operators bind at least this tightly? -/
def Goal.canAssign (least : Precedence) : Bool := decide (least ≤ .assignment)

/-- Does the next word continue an operand, binding at least as tightly as `least`? -/
def Continues (least : Precedence) (ws : List Word) : Prop :=
  ∃ kind p, nextKind ws = some kind ∧ binding? kind = some p ∧ least ≤ p

/-- Words read as an expression. -/
inductive Goal.Reads : {s : ExprSort} → Goal s → List Word → Expr s → List Word → Prop where
  | number {ca text ws} : Reads (.operand ca) (⟨.number, text⟩ :: ws) (.number text) ws
  | string {ca text ws} : Reads (.operand ca) (⟨.string, text⟩ :: ws) (.string text) ws
  | literal {ca kind i ws} (word : value? kind = some i) :
      Reads (.operand ca) (.mark kind :: ws) (.literal kind) ws
  | name {ca x ws} (ends : ¬(ca = true ∧ nextKind ws = some .equal)) :
      Reads (.operand ca) (.name x :: ws) (.name x) ws
  | assign {x ws value rest} (reads : Reads (.operators .assignment) ws value rest) :
      Reads (.operand true) (.name x :: .mark .equal :: ws) (.assign x value) rest
  | this {ca ws} : Reads (.operand ca) (.mark .kwThis :: ws) .this ws
  | superGet {ca m ws} (ends : nextKind ws ≠ some .leftParen) :
      Reads (.operand ca) (.mark .kwSuper :: .mark .dot :: .name m :: ws) (.superGet m) ws
  | superCall {ca m ws args rest} (reads : Reads .argumentList ws args rest) :
      Reads (.operand ca) (.mark .kwSuper :: .mark .dot :: .name m :: .mark .leftParen :: ws)
        (.superCall m args) rest
  | grouping {ca ws e rest}
      (reads : Reads (.operators .assignment) ws e (.mark .rightParen :: rest)) :
      Reads (.operand ca) (.mark .leftParen :: ws) (.grouping e) rest
  | unary {ca op i ws e rest} (word : unary? op = some i)
      (reads : Reads (.operators .unary) ws e rest) :
      Reads (.operand ca) (.mark op :: ws) (.unary op e) rest
  | operators {least ws left mid e rest}
      (first : Reads (.operand (Goal.canAssign least)) ws left mid)
      (others : Reads (.after least left) mid e rest) :
      Reads (.operators least) ws e rest
  | done {least left ws} (ends : ¬Continues least ws) : Reads (.after least left) ws left ws
  | call {least left ws args mid e rest} (binds : least ≤ .call)
      (reads : Reads .argumentList ws args mid)
      (others : Reads (.after least (.call left args)) mid e rest) :
      Reads (.after least left) (.mark .leftParen :: ws) e rest
  | get {least left p ws e rest} (binds : least ≤ .call)
      (ends : ¬(Goal.canAssign least = true ∧ nextKind ws = some .equal))
      (uncalled : nextKind ws ≠ some .leftParen)
      (others : Reads (.after least (.get left p)) ws e rest) :
      Reads (.after least left) (.mark .dot :: .name p :: ws) e rest
  | set {least left p ws value mid e rest} (binds : least ≤ .call)
      (assigns : Goal.canAssign least = true)
      (reads : Reads (.operators .assignment) ws value mid)
      (others : Reads (.after least (.set left p value)) mid e rest) :
      Reads (.after least left) (.mark .dot :: .name p :: .mark .equal :: ws) e rest
  | invoke {least left p ws args mid e rest} (binds : least ≤ .call)
      (reads : Reads .argumentList ws args mid)
      (others : Reads (.after least (.invoke left p args)) mid e rest) :
      Reads (.after least left) (.mark .dot :: .name p :: .mark .leftParen :: ws) e rest
  | binary {least left op p is ws right mid e rest} (word : binary? op = some (p, is))
      (binds : least ≤ p) (reads : Reads (.operators p.next) ws right mid)
      (others : Reads (.after least (.binary op left right)) mid e rest) :
      Reads (.after least left) (.mark op :: ws) e rest
  | and {least left ws right mid e rest} (binds : least ≤ .and)
      (reads : Reads (.operators .and) ws right mid)
      (others : Reads (.after least (.and left right)) mid e rest) :
      Reads (.after least left) (.mark .kwAnd :: ws) e rest
  | or {least left ws right mid e rest} (binds : least ≤ .or)
      (reads : Reads (.operators .or) ws right mid)
      (others : Reads (.after least (.or left right)) mid e rest) :
      Reads (.after least left) (.mark .kwOr :: ws) e rest
  | noArguments {ws} : Reads .argumentList (.mark .rightParen :: ws) .noArguments ws
  | someArguments {ws args rest} (reads : Reads .arguments ws args (.mark .rightParen :: rest)) :
      Reads .argumentList ws (.someArguments args) rest
  | lastArgument {ws e rest} (reads : Reads (.operators .assignment) ws e rest)
      (ends : nextKind rest ≠ some .comma) : Reads .arguments ws (.lastArgument e) rest
  | argument {ws e mid args rest}
      (first : Reads (.operators .assignment) ws e (.mark .comma :: mid))
      (others : Reads .arguments mid args rest) : Reads .arguments ws (.argument e args) rest

/-- How many words a phrase of the goal has at least. -/
def Goal.least : {s : ExprSort} → Goal s → Nat
  | _, .after .. => 0
  | _, _ => 1

lemma Goal.Reads.length {s : ExprSort} {g : Goal s} {ws rest : List Word} {e : Expr s}
    (h : g.Reads ws e rest) : rest.length + g.least ≤ ws.length := by
  induction h <;> simp only [Goal.least, List.length_cons] at * <;> omega

/-- Words read as an expression with all its operators. -/
abbrev ReadsExpr (ws : List Word) (e : Expr .expression) (rest : List Word) : Prop :=
  (Goal.operators .assignment).Reads ws e rest

/-! ## Clauses -/

/-- Words read as an expression that may be missing, with the mark that ends it. -/
inductive ReadsClause (stop : TokenKind) :
    List Word → Option (Expr .expression) → List Word → Prop where
  | none {rest} : ReadsClause stop (.mark stop :: rest) none rest
  | some {ws e rest} (reads : ReadsExpr ws e (.mark stop :: rest)) : ReadsClause stop ws (some e) rest

/-- Words read as a variable declaration after its first word. -/
inductive ReadsBinding :
    List Word → String → Option (Expr .expression) → List Word → Prop where
  | none {x rest} : ReadsBinding (.name x :: .mark .semicolon :: rest) x none rest
  | some {x ws e rest} (reads : ReadsExpr ws e (.mark .semicolon :: rest)) :
      ReadsBinding (.name x :: .mark .equal :: ws) x (some e) rest

/-- Words read as the first clause of a for loop. -/
inductive Initializer.Reads : List Word → Initializer → List Word → Prop where
  | none {rest} : Reads (.mark .semicolon :: rest) .none rest
  | var {ws x value rest} (reads : ReadsBinding ws x value rest) :
      Reads (.mark .kwVar :: ws) (.var x value) rest
  | expression {ws e rest} (reads : ReadsExpr ws e (.mark .semicolon :: rest)) :
      Reads ws (.expression e) rest

/-! ## Statements -/

/-- May a block or a program end before this word? -/
def EndsBlock (ws : List Word) : Prop :=
  nextKind ws = some .rightBrace ∨ nextKind ws = some .endOfInput

/-- Words read as a statement, as a declaration, or as a sequence of declarations or methods. -/
inductive Stmt.Reads : {s : StmtSort} → List Word → Stmt s → List Word → Prop where
  | print {ws e rest} (reads : ReadsExpr ws e (.mark .semicolon :: rest)) :
      Reads (.mark .kwPrint :: ws) (.print e) rest
  | expression {ws e rest} (reads : ReadsExpr ws e (.mark .semicolon :: rest)) :
      Reads ws (.expression e) rest
  | ret {ws value rest} (reads : ReadsClause .semicolon ws value rest) :
      Reads (.mark .kwReturn :: ws) (.ret value) rest
  | ifThen {ws c mid t rest} (condition : ReadsExpr ws c (.mark .rightParen :: mid))
      (branch : Reads mid t rest) (ends : nextKind rest ≠ some .kwElse) :
      Reads (.mark .kwIf :: .mark .leftParen :: ws) (.ifThen c t) rest
  | ifElse {ws c mid t mid' e rest} (condition : ReadsExpr ws c (.mark .rightParen :: mid))
      (branch : Reads mid t (.mark .kwElse :: mid')) (otherwise : Reads mid' e rest) :
      Reads (.mark .kwIf :: .mark .leftParen :: ws) (.ifElse c t e) rest
  | whileLoop {ws c mid body rest} (condition : ReadsExpr ws c (.mark .rightParen :: mid))
      (inner : Reads mid body rest) :
      Reads (.mark .kwWhile :: .mark .leftParen :: ws) (.whileLoop c body) rest
  | forLoop {ws first ws₁ c ws₂ step ws₃ body rest} (start : Initializer.Reads ws first ws₁)
      (condition : ReadsClause .semicolon ws₁ c ws₂) (increment : ReadsClause .rightParen ws₂ step ws₃)
      (inner : Reads ws₃ body rest) :
      Reads (.mark .kwFor :: .mark .leftParen :: ws) (.forLoop first c step body) rest
  | block {ws ds rest} (inner : Reads ws ds (.mark .rightBrace :: rest)) :
      Reads (.mark .leftBrace :: ws) (.block ds) rest
  | statement {ws s rest} (reads : Reads ws s rest) : Reads ws (.statement s) rest
  | var {ws x value rest} (reads : ReadsBinding ws x value rest) :
      Reads (.mark .kwVar :: ws) (.var x value) rest
  | function {x params ws body rest} (inner : Reads ws body (.mark .rightBrace :: rest)) :
      Reads (.mark .kwFun :: .name x :: .mark .leftParen ::
        (paramWords params ++ .mark .leftBrace :: ws)) (.function x params body) rest
  | cls {x superclass ws ms rest} (inner : Reads ws ms (.mark .rightBrace :: rest)) :
      Reads (.mark .kwClass :: .name x :: (superclassWords superclass ++ .mark .leftBrace :: ws))
        (.cls x superclass ms) rest
  | noDeclarations {ws} (ends : EndsBlock ws) : Reads ws .noDeclarations ws
  | declare {ws d mid ds rest} (first : Reads ws d mid) (others : Reads mid ds rest) :
      Reads ws (.declare d ds) rest
  | noMethods {ws} (ends : EndsBlock ws) : Reads ws .noMethods ws
  | method {x params ws body mid ms rest} (inner : Reads ws body (.mark .rightBrace :: mid))
      (others : Reads mid ms rest) :
      Reads (.name x :: .mark .leftParen :: (paramWords params ++ .mark .leftBrace :: ws))
        (.method x params body ms) rest

lemma ReadsExpr.length {ws rest : List Word} {e : Expr .expression} (h : ReadsExpr ws e rest) :
    rest.length + 1 ≤ ws.length :=
  Goal.Reads.length h

lemma ReadsClause.length {stop : TokenKind} {ws rest : List Word} {e : Option (Expr .expression)}
    (h : ReadsClause stop ws e rest) : rest.length + 1 ≤ ws.length := by
  cases h with
  | none => exact Nat.le_refl _
  | some reads => exact Nat.le_of_succ_le reads.length

lemma ReadsBinding.length {ws rest : List Word} {x : String} {value : Option (Expr .expression)}
    (h : ReadsBinding ws x value rest) : rest.length + 1 ≤ ws.length := by
  cases h with
  | none => exact Nat.le_succ _
  | some reads =>
    have shorter := reads.length
    simp only [List.length_cons] at shorter ⊢
    omega

lemma Initializer.Reads.length {ws rest : List Word} {first : Initializer}
    (h : Initializer.Reads ws first rest) : rest.length + 1 ≤ ws.length := by
  cases h with
  | none => exact Nat.le_refl _
  | var reads => exact Nat.le_succ_of_le reads.length
  | expression reads => exact Nat.le_of_succ_le reads.length

/-- How many words a phrase of the sort has at least. -/
def StmtSort.least : StmtSort → Nat
  | .statement | .declaration => 1
  | .declarations | .methods => 0

lemma Stmt.Reads.length {s : StmtSort} {ws rest : List Word} {t : Stmt s}
    (h : Stmt.Reads ws t rest) : rest.length + s.least ≤ ws.length := by
  induction h with
  | print reads | expression reads =>
    have shorter := reads.length
    simp only [StmtSort.least, List.length_cons] at *
    omega
  | ret reads | var reads =>
    have shorter := reads.length
    simp only [StmtSort.least, List.length_cons] at *
    omega
  | ifThen condition _ _ ih | whileLoop condition _ ih =>
    have shorter := condition.length
    simp only [StmtSort.least, List.length_cons] at *
    omega
  | ifElse condition _ _ ih ih' =>
    have shorter := condition.length
    simp only [StmtSort.least, List.length_cons] at *
    omega
  | forLoop start condition increment _ ih =>
    have first := start.length
    have second := condition.length
    have third := increment.length
    simp only [StmtSort.least, List.length_cons] at *
    omega
  | block _ ih | function _ ih | cls _ ih =>
    simp only [StmtSort.least, List.length_cons, List.length_append] at *
    omega
  | statement _ ih => exact ih
  | noDeclarations | noMethods => exact Nat.le_refl _
  | declare _ _ ih ih' | method _ _ ih ih' =>
    simp only [StmtSort.least, List.length_cons, List.length_append] at *
    omega

/-- Words read as a whole program. -/
def ReadsProgram (ws : List Word) (ds : Stmt .declarations) : Prop :=
  ∃ rest, Stmt.Reads ws ds rest ∧ nextKind rest = some .endOfInput

end Lox.Syntax
