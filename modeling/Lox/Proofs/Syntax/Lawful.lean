import Lox.Proofs.Syntax.Scoping

/-!
# Static rules

What is asked of a program besides its grammar (`Stmt.Lawful`).  In a scope that is not the global
one a name is declared once, and the parameters of a function belong to the scope of its body.  A
local variable is not mentioned in its own initializer.  Only functions return, and initializers
return no value.  There is no receiver outside of classes, no superclass where the class has none,
and no class inherits from itself.
-/

namespace Lox.Syntax

open Compile

/-- The rules for a phrase of an expression, inside the initializer of a local variable or not and
inside some classes.  Of each class it is known whether it has a superclass, the innermost first. -/
def Expr.Lawful (pending : Option String) (classes : List Bool) : {s : ExprSort} → Expr s → Prop
  | _, .name x => pending ≠ some x
  | _, .assign x value => pending ≠ some x ∧ value.Lawful pending classes
  | _, .this => classes ≠ []
  | _, .superGet _ => classes.head? = some true
  | _, .superCall _ args => classes.head? = some true ∧ args.Lawful pending classes
  | _, .grouping e => e.Lawful pending classes
  | _, .unary _ e => e.Lawful pending classes
  | _, .binary _ l r => l.Lawful pending classes ∧ r.Lawful pending classes
  | _, .and l r => l.Lawful pending classes ∧ r.Lawful pending classes
  | _, .or l r => l.Lawful pending classes ∧ r.Lawful pending classes
  | _, .call f args => f.Lawful pending classes ∧ args.Lawful pending classes
  | _, .get e _ => e.Lawful pending classes
  | _, .set e _ value => e.Lawful pending classes ∧ value.Lawful pending classes
  | _, .invoke e _ args => e.Lawful pending classes ∧ args.Lawful pending classes
  | _, .someArguments args => args.Lawful pending classes
  | _, .lastArgument e => e.Lawful pending classes
  | _, .argument e args => e.Lawful pending classes ∧ args.Lawful pending classes
  | _, _ => True

/-- The rules for an expression that may be missing. -/
def ClauseLawful (pending : Option String) (classes : List Bool) (e : Option (Expr .expression)) :
    Prop :=
  ∀ x ∈ e, x.Lawful pending classes

/-- The rules for the first clause of a for loop; its variable is local. -/
def Initializer.Lawful (classes : List Bool) : Initializer → Prop
  | .none => True
  | .var x value => ClauseLawful (some x) classes value
  | .expression e => e.Lawful Option.none classes

/-- The name has not been declared in the scope yet, unless it is the global one. -/
def Fresh (here : Option (List String)) (x : String) : Prop := ∀ names ∈ here, x ∉ names

/-- The names that have been declared in the scope after a phrase. -/
def Stmt.declares : {s : StmtSort} → Option (List String) → Stmt s → Option (List String)
  | _, here, .var x _ => here.map (x :: ·)
  | _, here, .function x _ _ => here.map (x :: ·)
  | _, here, .cls x _ _ => here.map (x :: ·)
  | _, here, .declare d ds => ds.declares (d.declares here)
  | _, here, _ => here

/-- The rules for a phrase in a function of this kind and inside some classes.  The names declared
before it in the innermost scope are known, unless that is the global one. -/
def Stmt.Lawful (kind : BodyKind) (classes : List Bool) :
    {s : StmtSort} → Option (List String) → Stmt s → Prop
  | _, _, .print e => e.Lawful none classes
  | _, _, .expression e => e.Lawful none classes
  | _, _, .ret none => kind ≠ .script
  | _, _, .ret (some e) => kind ≠ .script ∧ kind ≠ .initializer ∧ e.Lawful none classes
  | _, here, .ifThen c t => c.Lawful none classes ∧ t.Lawful kind classes here
  | _, here, .ifElse c t e =>
    c.Lawful none classes ∧ t.Lawful kind classes here ∧ e.Lawful kind classes here
  | _, here, .whileLoop c body => c.Lawful none classes ∧ body.Lawful kind classes here
  | _, here, .forLoop first c step body =>
    first.Lawful classes ∧ ClauseLawful none classes c ∧ ClauseLawful none classes step ∧
      body.Lawful kind classes here
  | _, _, .block ds => ds.Lawful kind classes (some [])
  | _, here, .statement s => s.Lawful kind classes here
  | _, here, .var x value =>
    Fresh here x ∧ ClauseLawful (if here.isSome then some x else none) classes value
  | _, here, .function x params body =>
    Fresh here x ∧ params.Nodup ∧ body.Lawful .function classes (some params)
  | _, here, .cls x superclass ms =>
    Fresh here x ∧ superclass ≠ some x ∧ ms.Lawful kind (superclass.isSome :: classes) here
  | _, here, .declare d ds =>
    d.Lawful kind classes here ∧ ds.Lawful kind classes (d.declares here)
  | _, here, .method x params body ms =>
    params.Nodup ∧
      body.Lawful (if x = "init" then .initializer else .method) classes (some params) ∧
      ms.Lawful kind classes here
  | _, _, _ => True

/-- The program keeps to the rules. -/
def LawfulProgram (ds : Stmt .declarations) : Prop := ds.Lawful .script [] none

end Lox.Syntax
