import Lox.Proofs.Syntax.Operators

/-!
# Syntax trees

The compiler never builds a tree; it emits code while it reads.  The trees here are what its
theory speaks about: expressions, statements and declarations, each with the words that spell it
(`Expr.words`, `Stmt.words`).  A word is a token without its place (`Token.word`).

A tree is *canonical* when its words, read from the left, group into the same tree again: an
operand that binds too loosely stands in parentheses, and a conditional without `else` does not
stand where the next `else` would become its own.
-/

namespace Lox.Syntax

open Compile

/-! ## Words -/

/-- What the grammar sees of a token: its kind, and its text where the kind leaves that open. -/
structure Word where
  kind : TokenKind
  text : String
  deriving DecidableEq, Repr

namespace Word

/-- A word whose kind says it all. -/
abbrev mark (kind : TokenKind) : Word := ⟨kind, ""⟩

/-- A name. -/
abbrev name (x : String) : Word := ⟨.identifier, x⟩

end Word

end Lox.Syntax

namespace Lox

/-- May tokens of this kind have different texts? -/
def TokenKind.hasText : TokenKind → Bool
  | .identifier | .string | .number => true
  | _ => false

/-- The word of a token. -/
def Token.word (t : Token) : Syntax.Word := ⟨t.kind, if t.kind.hasText then t.lexeme else ""⟩

end Lox

namespace Lox.Syntax

open Compile

/-! ## Expressions -/

/-- The phrases that belong to expressions. -/
inductive ExprSort where
  | expression
  /-- The arguments of a call, perhaps none. -/
  | argumentList
  /-- Arguments with commas between them, at least one. -/
  | arguments

/-- Expressions and the arguments in them. -/
inductive Expr : ExprSort → Type where
  | number (text : String) : Expr .expression
  /-- A string literal with its quotes. -/
  | string (text : String) : Expr .expression
  /-- A word for a value. -/
  | literal (kind : TokenKind) : Expr .expression
  | name (x : String) : Expr .expression
  | assign (x : String) (value : Expr .expression) : Expr .expression
  | this : Expr .expression
  | superGet (method : String) : Expr .expression
  | superCall (method : String) (args : Expr .argumentList) : Expr .expression
  | grouping (e : Expr .expression) : Expr .expression
  | unary (op : TokenKind) (e : Expr .expression) : Expr .expression
  | binary (op : TokenKind) (l r : Expr .expression) : Expr .expression
  | and (l r : Expr .expression) : Expr .expression
  | or (l r : Expr .expression) : Expr .expression
  | call (callee : Expr .expression) (args : Expr .argumentList) : Expr .expression
  | get (e : Expr .expression) (property : String) : Expr .expression
  | set (e : Expr .expression) (property : String) (value : Expr .expression) : Expr .expression
  | invoke (e : Expr .expression) (property : String) (args : Expr .argumentList) : Expr .expression
  | noArguments : Expr .argumentList
  | someArguments (args : Expr .arguments) : Expr .argumentList
  | lastArgument (e : Expr .expression) : Expr .arguments
  | argument (e : Expr .expression) (args : Expr .arguments) : Expr .arguments

/-! ## Statements -/

/-- The phrases that belong to statements. -/
inductive StmtSort where
  | statement
  | declaration
  | declarations
  | methods

/-- The first clause of a for loop. -/
inductive Initializer where
  | none
  | var (x : String) (value : Option (Expr .expression))
  | expression (e : Expr .expression)

/-- Statements, declarations and sequences of declarations. -/
inductive Stmt : StmtSort → Type where
  | print (e : Expr .expression) : Stmt .statement
  | expression (e : Expr .expression) : Stmt .statement
  | ret (value : Option (Expr .expression)) : Stmt .statement
  | ifThen (c : Expr .expression) (t : Stmt .statement) : Stmt .statement
  | ifElse (c : Expr .expression) (t e : Stmt .statement) : Stmt .statement
  | whileLoop (c : Expr .expression) (body : Stmt .statement) : Stmt .statement
  | forLoop (first : Initializer) (c step : Option (Expr .expression)) (body : Stmt .statement) :
      Stmt .statement
  | block (ds : Stmt .declarations) : Stmt .statement
  | statement (s : Stmt .statement) : Stmt .declaration
  | var (x : String) (value : Option (Expr .expression)) : Stmt .declaration
  | function (x : String) (params : List String) (body : Stmt .declarations) : Stmt .declaration
  | cls (x : String) (superclass : Option String) (ms : Stmt .methods) : Stmt .declaration
  | noDeclarations : Stmt .declarations
  | declare (d : Stmt .declaration) (ds : Stmt .declarations) : Stmt .declarations
  | noMethods : Stmt .methods
  | method (x : String) (params : List String) (body : Stmt .declarations) (ms : Stmt .methods) :
      Stmt .methods

/-! ## Spelling -/

namespace Expr

/-- The words of a phrase. -/
def words : {s : ExprSort} → Expr s → List Word
  | _, .number text => [⟨.number, text⟩]
  | _, .string text => [⟨.string, text⟩]
  | _, .literal kind => [.mark kind]
  | _, .name x => [.name x]
  | _, .assign x value => .name x :: .mark .equal :: value.words
  | _, .this => [.mark .kwThis]
  | _, .superGet m => [.mark .kwSuper, .mark .dot, .name m]
  | _, .superCall m args =>
    .mark .kwSuper :: .mark .dot :: .name m :: .mark .leftParen :: (args.words ++ [.mark .rightParen])
  | _, .grouping e => .mark .leftParen :: (e.words ++ [.mark .rightParen])
  | _, .unary op e => .mark op :: e.words
  | _, .binary op l r => l.words ++ .mark op :: r.words
  | _, .and l r => l.words ++ .mark .kwAnd :: r.words
  | _, .or l r => l.words ++ .mark .kwOr :: r.words
  | _, .call f args => f.words ++ .mark .leftParen :: (args.words ++ [.mark .rightParen])
  | _, .get e p => e.words ++ [.mark .dot, .name p]
  | _, .set e p value => e.words ++ .mark .dot :: .name p :: .mark .equal :: value.words
  | _, .invoke e p args =>
    e.words ++ .mark .dot :: .name p :: .mark .leftParen :: (args.words ++ [.mark .rightParen])
  | _, .noArguments => []
  | _, .someArguments args => args.words
  | _, .lastArgument e => e.words
  | _, .argument e args => e.words ++ .mark .comma :: args.words

/-- The number of arguments; an expression counts as one. -/
def count : {s : ExprSort} → Expr s → Nat
  | _, .noArguments => 0
  | _, .someArguments args => args.count
  | _, .lastArgument _ => 1
  | _, .argument _ args => args.count + 1
  | _, _ => 1

end Expr

/-- The words of an expression that may be missing, up to the mark that ends it. -/
def clauseWords (stop : TokenKind) (e : Option (Expr .expression)) : List Word :=
  (e.map Expr.words).getD [] ++ [.mark stop]

/-- The words of a variable declaration after its first word. -/
def bindingWords (x : String) : Option (Expr .expression) → List Word
  | none => [.name x, .mark .semicolon]
  | some e => .name x :: .mark .equal :: (e.words ++ [.mark .semicolon])

/-- The words of the first clause of a for loop. -/
def Initializer.words : Initializer → List Word
  | .none => [.mark .semicolon]
  | .var x value => .mark .kwVar :: bindingWords x value
  | .expression e => e.words ++ [.mark .semicolon]

/-- The words of parameters and the mark after them. -/
def paramWords : List String → List Word
  | [] => [.mark .rightParen]
  | [x] => [.name x, .mark .rightParen]
  | x :: xs => .name x :: .mark .comma :: paramWords xs

/-- The words that name a superclass. -/
def superclassWords : Option String → List Word
  | none => []
  | some x => [.mark .less, .name x]

/-- The words of a phrase. -/
def Stmt.words : {s : StmtSort} → Stmt s → List Word
  | _, .print e => .mark .kwPrint :: (e.words ++ [.mark .semicolon])
  | _, .expression e => e.words ++ [.mark .semicolon]
  | _, .ret value => .mark .kwReturn :: clauseWords .semicolon value
  | _, .ifThen c t =>
    .mark .kwIf :: .mark .leftParen :: (c.words ++ .mark .rightParen :: t.words)
  | _, .ifElse c t e =>
    .mark .kwIf :: .mark .leftParen ::
      (c.words ++ .mark .rightParen :: (t.words ++ .mark .kwElse :: e.words))
  | _, .whileLoop c body =>
    .mark .kwWhile :: .mark .leftParen :: (c.words ++ .mark .rightParen :: body.words)
  | _, .forLoop first c step body =>
    .mark .kwFor :: .mark .leftParen ::
      (first.words ++ (clauseWords .semicolon c ++ (clauseWords .rightParen step ++ body.words)))
  | _, .block ds => .mark .leftBrace :: (ds.words ++ [.mark .rightBrace])
  | _, .statement s => s.words
  | _, .var x value => .mark .kwVar :: bindingWords x value
  | _, .function x params body =>
    .mark .kwFun :: .name x :: .mark .leftParen ::
      (paramWords params ++ .mark .leftBrace :: (body.words ++ [.mark .rightBrace]))
  | _, .cls x superclass ms =>
    .mark .kwClass :: .name x ::
      (superclassWords superclass ++ .mark .leftBrace :: (ms.words ++ [.mark .rightBrace]))
  | _, .noDeclarations => []
  | _, .declare d ds => d.words ++ ds.words
  | _, .noMethods => []
  | _, .method x params body ms =>
    .name x :: .mark .leftParen ::
      (paramWords params ++ .mark .leftBrace :: (body.words ++ .mark .rightBrace :: ms.words))

/-! ## Canonical trees -/

namespace Expr

/-- How tightly the outermost operator binds its operands. -/
def rank : Expr .expression → Nat
  | .assign .. | .set .. => Precedence.assignment.rank
  | .or .. => Precedence.or.rank
  | .and .. => Precedence.and.rank
  | .binary op .. => ((binary? op).map (·.1.rank)).getD 0
  | .unary .. => Precedence.unary.rank
  | .call .. | .get .. | .invoke .. => Precedence.call.rank
  | _ => Precedence.primary.rank

/-- An operator after the expression takes all of it as its operand if it binds no tighter than
this. -/
def ceiling : Expr .expression → Nat
  | .assign .. | .set .. | .or .. => 0
  | .and .. => Precedence.or.rank
  | .binary op .. => ((binary? op).map (·.1.rank)).getD 0
  | .unary .. => Precedence.factor.rank
  | .call .. | .get .. | .invoke .. => Precedence.call.rank
  | _ => Precedence.primary.rank

/-- Does an opening parenthesis after the expression call it as a whole?  After the name of a
property it makes an invocation instead. -/
def takesCall : Expr .expression → Bool
  | .get .. | .superGet .. => false
  | _ => true

/-- The words of the phrase group into it again. -/
def Canonical : {s : ExprSort} → Expr s → Prop
  | _, .literal kind => ∃ i, value? kind = some i
  | _, .assign _ value => value.Canonical
  | _, .superCall _ args => args.Canonical
  | _, .grouping e => e.Canonical
  | _, .unary op e =>
    (∃ i, unary? op = some i) ∧ e.Canonical ∧ Precedence.unary.rank ≤ e.rank
  | _, .binary op l r =>
    ∃ p is, binary? op = some (p, is) ∧
      l.Canonical ∧ p.rank ≤ l.ceiling ∧ r.Canonical ∧ p.next.rank ≤ r.rank
  | _, .and l r =>
    l.Canonical ∧ Precedence.and.rank ≤ l.ceiling ∧ r.Canonical ∧ Precedence.and.rank ≤ r.rank
  | _, .or l r =>
    l.Canonical ∧ Precedence.or.rank ≤ l.ceiling ∧ r.Canonical ∧ Precedence.or.rank ≤ r.rank
  | _, .call f args =>
    f.Canonical ∧ Precedence.call.rank ≤ f.ceiling ∧ f.takesCall ∧ args.Canonical
  | _, .get e _ => e.Canonical ∧ Precedence.call.rank ≤ e.ceiling
  | _, .set e _ value => e.Canonical ∧ Precedence.call.rank ≤ e.ceiling ∧ value.Canonical
  | _, .invoke e _ args => e.Canonical ∧ Precedence.call.rank ≤ e.ceiling ∧ args.Canonical
  | _, .someArguments args => args.Canonical
  | _, .lastArgument e => e.Canonical
  | _, .argument e args => e.Canonical ∧ args.Canonical
  | _, _ => True

end Expr

/-- The expression of a clause is canonical if there is one. -/
def ClauseCanonical (e : Option (Expr .expression)) : Prop := ∀ x ∈ e, x.Canonical

/-- The expressions of the clause are canonical. -/
def Initializer.Canonical : Initializer → Prop
  | .none => True
  | .var _ value => ClauseCanonical value
  | .expression e => e.Canonical

namespace Stmt

/-- Would an `else` after the statement become part of it? -/
def openEnded : {s : StmtSort} → Stmt s → Bool
  | _, .ifThen .. => true
  | _, .ifElse _ _ e => e.openEnded
  | _, .whileLoop _ body => body.openEnded
  | _, .forLoop _ _ _ body => body.openEnded
  | _, .statement s => s.openEnded
  | _, _ => false

/-- The words of the phrase group into it again. -/
def Canonical : {s : StmtSort} → Stmt s → Prop
  | _, .print e => e.Canonical
  | _, .expression e => e.Canonical
  | _, .ret value => ClauseCanonical value
  | _, .ifThen c t => c.Canonical ∧ t.Canonical
  | _, .ifElse c t e => c.Canonical ∧ t.Canonical ∧ t.openEnded = false ∧ e.Canonical
  | _, .whileLoop c body => c.Canonical ∧ body.Canonical
  | _, .forLoop first c step body =>
    first.Canonical ∧ ClauseCanonical c ∧ ClauseCanonical step ∧ body.Canonical
  | _, .block ds => ds.Canonical
  | _, .statement s => s.Canonical
  | _, .var _ value => ClauseCanonical value
  | _, .function _ _ body => body.Canonical
  | _, .cls _ _ ms => ms.Canonical
  | _, .declare d ds => d.Canonical ∧ ds.Canonical
  | _, .method _ _ body ms => body.Canonical ∧ ms.Canonical
  | _, _ => True

end Stmt

end Lox.Syntax
