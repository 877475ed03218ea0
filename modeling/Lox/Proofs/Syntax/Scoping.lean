import Lox.Compile.Body
import Lox.Proofs.Syntax.Tree

/-!
# Lexical scoping

What the names of a program mean, read off its tree alone.  At every point of a program there are
the names in scope, function by function (`Env`), and a name means the innermost variable of that
name, or else a global (`meaning`).  `Stmt.uses` lists all uses of variables by the code of one
function, in the order in which the code comes to them, and `Stmt.functions` the functions declared
there, each with the names in scope around it.

Some uses are not written: a class is read again to receive its methods, a loop with a variable
reads it into the copy for each turn and writes it back, and an initializer gives back its receiver.
-/

namespace Lox.Syntax

open Compile

/-! ## Variables -/

/-- What a name means. -/
inductive Variable where
  /-- A variable of a function, `outwards` functions further out, with so many variables declared
  before it that are still in scope. -/
  | bound (outwards place : Nat)
  | global (x : String)
  deriving DecidableEq, Repr

/-- The same variable, seen from a function inside. -/
def Variable.outside : Variable → Variable
  | .bound outwards place => .bound (outwards + 1) place
  | .global x => .global x

/-- The names in scope in each function, the innermost first. -/
abbrev Env := List (List String)

/-- The number of names before the innermost one that is `x`. -/
def placeOf? (x : String) : List String → Option Nat
  | [] => none
  | y :: outer => if y = x then some outer.length else placeOf? x outer

/-- The innermost variable of a name. -/
def meaning (x : String) : Env → Variable
  | [] => .global x
  | names :: further =>
    match placeOf? x names with
    | some place => .bound 0 place
    | none => (meaning x further).outside

/-- A use of a variable. -/
inductive Use where
  | read (v : Variable)
  | write (v : Variable)
  deriving DecidableEq, Repr

/-! ## Uses -/

/-- The uses in an expression. -/
def Expr.uses (env : Env) : {s : ExprSort} → Expr s → List Use
  | _, .name x => [.read (meaning x env)]
  | _, .assign x value => value.uses env ++ [.write (meaning x env)]
  | _, .this => [.read (meaning "this" env)]
  | _, .superGet _ => [.read (meaning "this" env), .read (meaning "super" env)]
  | _, .superCall _ args =>
    .read (meaning "this" env) :: (args.uses env ++ [.read (meaning "super" env)])
  | _, .grouping e => e.uses env
  | _, .unary _ e => e.uses env
  | _, .binary _ l r => l.uses env ++ r.uses env
  | _, .and l r => l.uses env ++ r.uses env
  | _, .or l r => l.uses env ++ r.uses env
  | _, .call f args => f.uses env ++ args.uses env
  | _, .get e _ => e.uses env
  | _, .set e _ value => e.uses env ++ value.uses env
  | _, .invoke e _ args => e.uses env ++ args.uses env
  | _, .someArguments args => args.uses env
  | _, .lastArgument e => e.uses env
  | _, .argument e args => e.uses env ++ args.uses env
  | _, _ => []

/-- The uses in an expression that may be missing. -/
def clauseUses (env : Env) (e : Option (Expr .expression)) : List Use :=
  e.elim [] (Expr.uses env)

/-- The uses in the first clause of a for loop. -/
def Initializer.uses (env : Env) : Initializer → List Use
  | .none => []
  | .var _ value => clauseUses env value
  | .expression e => e.uses env

/-- Leaving an initializer reads the receiver, which is the first variable of a method. -/
def leavingUses : BodyKind → List Use
  | .initializer => [.read (.bound 0 0)]
  | _ => []

/-- The names in scope after a declaration, which adds none if it declares a global. -/
def declared (top : Bool) (x : String) (names : List String) : List String :=
  if top then names else x :: names

/-- The names in scope after a phrase; `top` tells whether its variables are globals. -/
def Stmt.after (top : Bool) : {s : StmtSort} → List String → Stmt s → List String
  | _, names, .var x _ => declared top x names
  | _, names, .function x _ _ => declared top x names
  | _, names, .cls x _ _ => declared top x names
  | _, names, .declare d ds => ds.after top (d.after top names)
  | _, names, _ => names

/-- The uses in a phrase of a function of this kind, in functions with the names `around`. -/
def Stmt.uses (kind : BodyKind) (around : Env) (top : Bool) :
    {s : StmtSort} → List String → Stmt s → List Use
  | _, names, .print e => e.uses (names :: around)
  | _, names, .expression e => e.uses (names :: around)
  | _, _, .ret none => leavingUses kind
  | _, names, .ret (some e) => e.uses (names :: around)
  | _, names, .ifThen c t => c.uses (names :: around) ++ t.uses kind around false names
  | _, names, .ifElse c t e =>
    c.uses (names :: around) ++ (t.uses kind around false names ++ e.uses kind around false names)
  | _, names, .whileLoop c body => c.uses (names :: around) ++ body.uses kind around false names
  | _, names, .forLoop (.var x value) c step body =>
    let looping := (x :: names) :: around
    let turn := (x :: x :: names) :: around
    clauseUses (names :: around) value ++ (clauseUses looping c ++ (clauseUses looping step ++
      (.read (meaning x looping) :: (body.uses kind around false (x :: x :: names) ++
        [.read (meaning x turn), .write (meaning x looping)]))))
  | _, names, .forLoop first c step body =>
    first.uses (names :: around) ++ (clauseUses (names :: around) c ++
      (clauseUses (names :: around) step ++ body.uses kind around false names))
  | _, names, .block ds => ds.uses kind around false names
  | _, names, .statement s => s.uses kind around top names
  | _, names, .var _ value => clauseUses (names :: around) value
  | _, names, .cls x none _ => [.read (meaning x (declared top x names :: around))]
  | _, names, .cls x (some y) _ =>
    let inside := ("super" :: declared top x names) :: around
    [.read (meaning y (declared top x names :: around)), .read (meaning x inside),
      .read (meaning x inside)]
  | _, names, .declare d ds =>
    d.uses kind around top names ++ ds.uses kind around top (d.after top names)
  | _, _, _ => []

/-! ## Functions -/

/-- A function of a program; the script is one, too. -/
structure Function where
  kind : BodyKind
  name : String
  params : List String
  body : Stmt .declarations
  /-- The names in scope around it. -/
  around : Env

namespace Function

/-- The function of a whole program. -/
def script (ds : Stmt .declarations) : Function := ⟨.script, "", [], ds, []⟩

/-- Are the variables that the body declares globals? -/
def top (f : Function) : Bool := f.kind = .script

/-- The names in scope where the body starts: the parameters, and before them the receiver of a
method. -/
def names (f : Function) : List String := f.params.reverse ++ [f.kind.slotZero]

/-- The uses by the code of the function. -/
def uses (f : Function) : List Use :=
  f.body.uses f.kind f.around f.top f.names ++ leavingUses f.kind

end Function

/-- The functions declared in a phrase, but not in functions inside it. -/
def Stmt.functions (around : Env) (top : Bool) :
    {s : StmtSort} → List String → Stmt s → List Function
  | _, names, .ifThen _ t => t.functions around false names
  | _, names, .ifElse _ t e => t.functions around false names ++ e.functions around false names
  | _, names, .whileLoop _ body => body.functions around false names
  | _, names, .forLoop (.var x _) _ _ body => body.functions around false (x :: x :: names)
  | _, names, .forLoop _ _ _ body => body.functions around false names
  | _, names, .block ds => ds.functions around false names
  | _, names, .statement s => s.functions around top names
  | _, names, .function x params body =>
    [⟨.function, x, params, body, declared top x names :: around⟩]
  | _, names, .cls x none ms => ms.functions around false (declared top x names)
  | _, names, .cls x (some _) ms => ms.functions around false ("super" :: declared top x names)
  | _, names, .declare d ds =>
    d.functions around top names ++ ds.functions around top (d.after top names)
  | _, names, .method x params body ms =>
    ⟨if x = "init" then .initializer else .method, x, params, body, names :: around⟩ ::
      ms.functions around top names
  | _, _, _ => []

/-- The functions declared in the body of a function. -/
def Function.functions (f : Function) : List Function := f.body.functions f.around f.top f.names

end Lox.Syntax
