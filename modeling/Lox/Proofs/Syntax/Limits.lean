import Lox.Compile.Expression
import Lox.Proofs.Syntax.Scoping
import Mathlib.Data.List.Dedup

/-!
# Limits

How much of everything a program needs, read off its tree: how deep it is nested, the constants of
each function (`Stmt.constants`), the variables it captures (`Stmt.mentions`), and the bytes of its
code (`Stmt.size`), of which jumps can pass only so many.  `WithinLimits` says that none of it is more
than there may be.
-/

namespace Lox.Syntax

open Compile

/-! ## Nesting -/

/-- How many levels of phrases are nested in a phrase of an expression. -/
def Expr.depth : {s : ExprSort} → Expr s → Nat
  | _, .assign _ value => value.depth + 1
  | _, .superCall _ args => args.depth
  | _, .grouping e => e.depth + 1
  | _, .unary _ e => e.depth + 1
  | _, .binary _ l r => max l.depth (r.depth + 1)
  | _, .and l r => max l.depth (r.depth + 1)
  | _, .or l r => max l.depth (r.depth + 1)
  | _, .call f args => max f.depth args.depth
  | _, .get e _ => e.depth
  | _, .set e _ value => max e.depth (value.depth + 1)
  | _, .invoke e _ args => max e.depth args.depth
  | _, .someArguments args => args.depth
  | _, .lastArgument e => e.depth + 1
  | _, .argument e args => max (e.depth + 1) args.depth
  | _, _ => 0

/-- How many levels an expression is that may be missing. -/
def clauseDepth (e : Option (Expr .expression)) : Nat := e.elim 0 (·.depth + 1)

/-- How many levels the first clause of a for loop is. -/
def Initializer.depth : Initializer → Nat
  | .none => 0
  | .var _ value => clauseDepth value
  | .expression e => e.depth + 1

/-- How many levels of phrases are nested in a phrase. -/
def Stmt.depth : {s : StmtSort} → Stmt s → Nat
  | _, .print e => e.depth + 1
  | _, .expression e => e.depth + 1
  | _, .ret value => clauseDepth value
  | _, .ifThen c t => max c.depth t.depth + 1
  | _, .ifElse c t e => max c.depth (max t.depth e.depth) + 1
  | _, .whileLoop c body => max c.depth body.depth + 1
  | _, .forLoop first c step body =>
    max (max first.depth (clauseDepth c)) (max (clauseDepth step) (body.depth + 1))
  | _, .block ds => ds.depth
  | _, .statement s => s.depth + 1
  | _, .var _ value => clauseDepth value
  | _, .function _ _ body => body.depth + 1
  | _, .cls _ _ ms => ms.depth
  | _, .declare d ds => max d.depth ds.depth
  | _, .method _ _ body ms => max (body.depth + 1) ms.depth
  | _, _ => 0

/-! ## Constants -/

/-- A constant that a function needs. -/
inductive Literal where
  | number (x : Float)
  | string (content : String)
  /-- A function inside. -/
  | function

namespace Literal

/-- Is one constant enough for both?  Functions are all different. -/
def same : Literal → Literal → Bool
  | .number x, .number y => x == y
  | .string s, .string t => s == t
  | _, _ => false

/-- The constants with another one, unless it is there. -/
def add (pool : List Literal) (l : Literal) : List Literal :=
  if pool.any (·.same l) then pool else pool ++ [l]

/-- The different ones among some constants. -/
def distinct (ls : List Literal) : List Literal := ls.foldl add []

end Literal

/-- The constant for the name of a variable, if it is a global. -/
def nameConstants (env : Env) (x : String) : List Literal :=
  match meaning x env with
  | .bound .. => []
  | .global x => [.string x]

/-- The constants that a phrase of an expression needs, in order. -/
def Expr.constants (env : Env) : {s : ExprSort} → Expr s → List Literal
  | _, .number text => [.number (Decimal.read text)]
  | _, .string text => [.string (unquote text)]
  | _, .name x => nameConstants env x
  | _, .assign x value => nameConstants env x ++ value.constants env
  | _, .this => nameConstants env "this"
  | _, .superGet m => .string m :: (nameConstants env "this" ++ nameConstants env "super")
  | _, .superCall m args =>
    .string m :: (nameConstants env "this" ++ (args.constants env ++ nameConstants env "super"))
  | _, .grouping e => e.constants env
  | _, .unary _ e => e.constants env
  | _, .binary _ l r => l.constants env ++ r.constants env
  | _, .and l r => l.constants env ++ r.constants env
  | _, .or l r => l.constants env ++ r.constants env
  | _, .call f args => f.constants env ++ args.constants env
  | _, .get e p => e.constants env ++ [.string p]
  | _, .set e p value => e.constants env ++ .string p :: value.constants env
  | _, .invoke e p args => e.constants env ++ .string p :: args.constants env
  | _, .someArguments args => args.constants env
  | _, .lastArgument e => e.constants env
  | _, .argument e args => e.constants env ++ args.constants env
  | _, _ => []

/-- The constants that an expression needs that may be missing. -/
def clauseConstants (env : Env) (e : Option (Expr .expression)) : List Literal :=
  e.elim [] (Expr.constants env)

/-- The constant for the name of a variable that is declared, if it is a global. -/
def declaredConstants (top : Bool) (x : String) : List Literal := if top then [.string x] else []

/-- The names in scope in the body of a for loop, where its variable has a copy for each turn. -/
def Initializer.turn : Initializer → List String → List String
  | .var x _, names => x :: x :: names
  | _, names => names

/-- The names in scope in the other clauses of a for loop. -/
def Initializer.after : Initializer → List String → List String
  | .var x _, names => x :: names
  | _, names => names

/-- The constants that the first clause of a for loop needs. -/
def Initializer.constants (env : Env) : Initializer → List Literal
  | .none => []
  | .var _ value => clauseConstants env value
  | .expression e => e.constants env

/-- The constants for inheriting from a superclass, where the names are in scope. -/
def superclassConstants (x : String) (superclass : Option String) (names : List String)
    (around : Env) : List Literal :=
  superclass.elim [] fun y =>
    nameConstants (names :: around) y ++ nameConstants (("super" :: names) :: around) x

/-- The names in scope in a class. -/
def classNames (superclass : Option String) (names : List String) : List String :=
  if superclass.isSome then "super" :: names else names

/-- The constants that a phrase needs, in order, but not those of the functions inside. -/
def Stmt.constants (around : Env) (top : Bool) :
    {s : StmtSort} → List String → Stmt s → List Literal
  | _, names, .print e => e.constants (names :: around)
  | _, names, .expression e => e.constants (names :: around)
  | _, names, .ret value => clauseConstants (names :: around) value
  | _, names, .ifThen c t => c.constants (names :: around) ++ t.constants around false names
  | _, names, .ifElse c t e =>
    c.constants (names :: around) ++
      (t.constants around false names ++ e.constants around false names)
  | _, names, .whileLoop c body =>
    c.constants (names :: around) ++ body.constants around false names
  | _, names, .forLoop first c step body =>
    first.constants (names :: around) ++ (clauseConstants (first.after names :: around) c ++
      (clauseConstants (first.after names :: around) step ++
        body.constants around false (first.turn names)))
  | _, names, .block ds => ds.constants around false names
  | _, names, .statement s => s.constants around top names
  | _, names, .var x value => declaredConstants top x ++ clauseConstants (names :: around) value
  | _, _, .function x _ _ => declaredConstants top x ++ [.function]
  | _, names, .cls x superclass ms =>
    .string x :: (superclassConstants x superclass (declared top x names) around ++
      (nameConstants (classNames superclass (declared top x names) :: around) x ++
        ms.constants around false (classNames superclass (declared top x names))))
  | _, names, .declare d ds =>
    d.constants around top names ++ ds.constants around top (d.after top names)
  | _, names, .method x _ _ ms => .string x :: .function :: ms.constants around top names
  | _, _, _ => []

/-! ## Captured variables -/

/-- The variable of a function further out, seen from there. -/
def Variable.captured? : Variable → Option Variable
  | .bound (outwards + 1) place => some (.bound outwards place)
  | _ => none

/-- The variables that a phrase of an expression mentions. -/
def Expr.mentions (env : Env) : {s : ExprSort} → Expr s → List Variable
  | _, .name x => [meaning x env]
  | _, .assign x value => meaning x env :: value.mentions env
  | _, .this => [meaning "this" env]
  | _, .superGet _ => [meaning "this" env, meaning "super" env]
  | _, .superCall _ args => meaning "this" env :: meaning "super" env :: args.mentions env
  | _, .grouping e => e.mentions env
  | _, .unary _ e => e.mentions env
  | _, .binary _ l r => l.mentions env ++ r.mentions env
  | _, .and l r => l.mentions env ++ r.mentions env
  | _, .or l r => l.mentions env ++ r.mentions env
  | _, .call f args => f.mentions env ++ args.mentions env
  | _, .get e _ => e.mentions env
  | _, .set e _ value => e.mentions env ++ value.mentions env
  | _, .invoke e _ args => e.mentions env ++ args.mentions env
  | _, .someArguments args => args.mentions env
  | _, .lastArgument e => e.mentions env
  | _, .argument e args => e.mentions env ++ args.mentions env
  | _, _ => []

/-- The variables that an expression mentions that may be missing. -/
def clauseMentions (env : Env) (e : Option (Expr .expression)) : List Variable :=
  e.elim [] (Expr.mentions env)

/-- The variables that the first clause of a for loop mentions. -/
def Initializer.mentions (env : Env) : Initializer → List Variable
  | .none => []
  | .var _ value => clauseMentions env value
  | .expression e => e.mentions env

/-- The variables that inheriting from a superclass mentions, where the names are in scope. -/
def superclassMentions (x : String) (superclass : Option String) (names : List String)
    (around : Env) : List Variable :=
  superclass.elim [] fun y =>
    [meaning y (names :: around), meaning x (("super" :: names) :: around)]

/-- The variables that a phrase of a function mentions, also in functions inside, as far as they are
seen from there. -/
def Stmt.mentions (around : Env) (top : Bool) :
    {s : StmtSort} → List String → Stmt s → List Variable
  | _, names, .print e => e.mentions (names :: around)
  | _, names, .expression e => e.mentions (names :: around)
  | _, names, .ret value => clauseMentions (names :: around) value
  | _, names, .ifThen c t => c.mentions (names :: around) ++ t.mentions around false names
  | _, names, .ifElse c t e =>
    c.mentions (names :: around) ++
      (t.mentions around false names ++ e.mentions around false names)
  | _, names, .whileLoop c body => c.mentions (names :: around) ++ body.mentions around false names
  | _, names, .forLoop first c step body =>
    first.mentions (names :: around) ++ (clauseMentions (first.after names :: around) c ++
      (clauseMentions (first.after names :: around) step ++
        body.mentions around false (first.turn names)))
  | _, names, .block ds => ds.mentions around false names
  | _, names, .statement s => s.mentions around top names
  | _, names, .var _ value => clauseMentions (names :: around) value
  | _, names, .function x params body =>
    (body.mentions (declared top x names :: around) false
      (params.reverse ++ [BodyKind.function.slotZero])).filterMap Variable.captured?
  | _, names, .cls x superclass ms =>
    superclassMentions x superclass (declared top x names) around ++
      (meaning x (classNames superclass (declared top x names) :: around) ::
        ms.mentions around false (classNames superclass (declared top x names)))
  | _, names, .declare d ds =>
    d.mentions around top names ++ ds.mentions around top (d.after top names)
  | _, names, .method _ params body ms =>
    (body.mentions (names :: around) false
      (params.reverse ++ [BodyKind.method.slotZero])).filterMap Variable.captured? ++
        ms.mentions around top names
  | _, _, _ => []

/-- The variables that a function captures from the functions around it. -/
def captured (kind : BodyKind) (params : List String) (body : Stmt .declarations) (around : Env) :
    List Variable :=
  (body.mentions around false (params.reverse ++ [kind.slotZero])).filterMap Variable.captured?

/-! ## Bytes -/

/-- The bytes of the instructions of an operator between two operands. -/
def operatorSize (op : TokenKind) : Nat :=
  match binary? op with
  | some (_, is) => is.length
  | none => 0

/-- The bytes of the code of a phrase of an expression. -/
def Expr.size : {s : ExprSort} → Expr s → Nat
  | _, .number _ => 2
  | _, .string _ => 2
  | _, .literal _ => 1
  | _, .name _ => 2
  | _, .assign _ value => value.size + 2
  | _, .this => 2
  | _, .superGet _ => 6
  | _, .superCall _ args => args.size + 7
  | _, .grouping e => e.size
  | _, .unary _ e => e.size + 1
  | _, .binary op l r => l.size + r.size + operatorSize op
  | _, .and l r => l.size + r.size + 4
  | _, .or l r => l.size + r.size + 7
  | _, .call f args => f.size + args.size + 2
  | _, .get e _ => e.size + 2
  | _, .set e _ value => e.size + value.size + 2
  | _, .invoke e _ args => e.size + args.size + 3
  | _, .noArguments => 0
  | _, .someArguments args => args.size
  | _, .lastArgument e => e.size
  | _, .argument e args => e.size + args.size

/-- The bytes of the code of a clause: the expression and what belongs to it, or else what stands for
a missing one. -/
def clauseSize (more missing : Nat) (e : Option (Expr .expression)) : Nat :=
  e.elim missing (·.size + more)

/-- The bytes of the code of the first clause of a for loop. -/
def Initializer.size : Initializer → Nat
  | .none => 0
  | .var _ value => clauseSize 0 1 value
  | .expression e => e.size + 1

/-- The bytes for the copy of the loop variable in each turn. -/
def Initializer.copySize : Initializer → Nat
  | .var .. => 8
  | _ => 0

/-- The bytes for taking the loop variable off the stack. -/
def Initializer.exitSize : Initializer → Nat
  | .var .. => 1
  | _ => 0

/-- The bytes for defining a variable. -/
def definedSize (top : Bool) : Nat := if top then 2 else 0

/-- The bytes of the instruction that makes a closure. -/
def closureSize (kind : BodyKind) (params : List String) (body : Stmt .declarations) (around : Env) :
    Nat :=
  2 + 2 * (captured kind params body around).dedup.length

/-- The bytes of the code of a phrase in a function of this kind. -/
def Stmt.size (kind : BodyKind) (around : Env) (top : Bool) :
    {s : StmtSort} → List String → Stmt s → Nat
  | _, _, .print e => e.size + 1
  | _, _, .expression e => e.size + 1
  | _, _, .ret none => if kind = .initializer then 3 else 2
  | _, _, .ret (some e) => e.size + 1
  | _, names, .ifThen c t => c.size + t.size kind around false names + 8
  | _, names, .ifElse c t e =>
    c.size + t.size kind around false names + e.size kind around false names + 8
  | _, names, .whileLoop c body => c.size + body.size kind around false names + 8
  | _, names, .forLoop first c step body =>
    first.size + clauseSize 5 0 c + clauseSize 7 0 step +
      (body.size kind around false (first.turn names) + first.copySize) + 3 + first.exitSize
  | _, names, .block ds =>
    ds.size kind around false names + ((ds.after false names).length - names.length)
  | _, names, .statement s => s.size kind around top names
  | _, _, .var _ value => clauseSize 0 1 value + definedSize top
  | _, names, .function x params body =>
    closureSize .function params body (declared top x names :: around) + definedSize top
  | _, names, .cls x superclass ms =>
    definedSize top + superclass.elim 0 (fun _ => 6) + 5 +
      ms.size kind around false (classNames superclass (declared top x names))
  | _, names, .declare d ds =>
    d.size kind around top names + ds.size kind around top (d.after top names)
  | _, names, .method _ params body ms =>
    closureSize .method params body (names :: around) + 2 + ms.size kind around top names
  | _, _, _ => 0

/-! ## Limits -/

/-- No phrase of the expression needs more than there may be: arguments, or bytes for a jump. -/
def Expr.Fits : {s : ExprSort} → Expr s → Prop
  | _, .assign _ value => value.Fits
  | _, .superCall _ args => args.count ≤ maxArity ∧ args.Fits
  | _, .grouping e => e.Fits
  | _, .unary _ e => e.Fits
  | _, .binary _ l r => l.Fits ∧ r.Fits
  | _, .and l r => l.Fits ∧ r.Fits ∧ r.size + 1 ≤ maxDistance
  | _, .or l r => l.Fits ∧ r.Fits ∧ r.size + 1 ≤ maxDistance
  | _, .call f args => f.Fits ∧ args.count ≤ maxArity ∧ args.Fits
  | _, .get e _ => e.Fits
  | _, .set e _ value => e.Fits ∧ value.Fits
  | _, .invoke e _ args => e.Fits ∧ args.count ≤ maxArity ∧ args.Fits
  | _, .someArguments args => args.Fits
  | _, .lastArgument e => e.Fits
  | _, .argument e args => e.Fits ∧ args.Fits
  | _, _ => True

/-- An expression that may be missing fits. -/
def ClauseFits (e : Option (Expr .expression)) : Prop := ∀ x ∈ e, x.Fits

/-- The first clause of a for loop fits, with places for its variable and the copy. -/
def Initializer.Fits (names : List String) : Initializer → Prop
  | .none => True
  | .var _ value => ClauseFits value ∧ names.length + 1 < maxOperands
  | .expression e => e.Fits

/-- There is a place for another variable, if it is local. -/
def HasPlace (top : Bool) (names : List String) : Prop := top ∨ names.length < maxOperands

/-- No phrase of a function of this kind needs more than there may be: places for local variables,
bytes for a jump, or what expressions and functions need. -/
def Stmt.Fits (kind : BodyKind) (around : Env) (top : Bool) :
    {s : StmtSort} → List String → Stmt s → Prop
  | _, _, .print e => e.Fits
  | _, _, .expression e => e.Fits
  | _, _, .ret value => ClauseFits value
  | _, names, .ifThen c t =>
    c.Fits ∧ t.Fits kind around false names ∧ t.size kind around false names + 4 ≤ maxDistance
  | _, names, .ifElse c t e =>
    c.Fits ∧ t.Fits kind around false names ∧ e.Fits kind around false names ∧
      t.size kind around false names + 4 ≤ maxDistance ∧
      e.size kind around false names + 1 ≤ maxDistance
  | _, names, .whileLoop c body =>
    c.Fits ∧ body.Fits kind around false names ∧
      c.size + body.size kind around false names + 7 ≤ maxDistance
  | _, names, .forLoop first c step body =>
    let turn := body.size kind around false (first.turn names) + first.copySize
    first.Fits names ∧ ClauseFits c ∧ ClauseFits step ∧
      body.Fits kind around false (first.turn names) ∧
      (step.isSome → clauseSize 4 0 c + clauseSize 7 0 step ≤ maxDistance) ∧
      clauseSize 4 (clauseSize 4 0 c) step + turn + 3 ≤ maxDistance ∧
      (c.isSome → clauseSize 7 0 step + turn + 4 ≤ maxDistance)
  | _, names, .block ds => ds.Fits kind around false names
  | _, names, .statement s => s.Fits kind around top names
  | _, names, .var _ value => ClauseFits value ∧ HasPlace top names
  | _, names, .function x params body =>
    let inside := declared top x names :: around
    HasPlace top names ∧ params.length ≤ maxArity ∧
      (captured .function params body inside).dedup.length ≤ maxOperands ∧
      (Literal.distinct (body.constants inside false
        (params.reverse ++ [BodyKind.function.slotZero]))).length ≤ maxOperands ∧
      body.Fits .function inside false (params.reverse ++ [BodyKind.function.slotZero])
  | _, names, .cls x superclass ms =>
    HasPlace top names ∧
      (superclass.isSome → (declared top x names).length < maxOperands) ∧
      ms.Fits kind around false (classNames superclass (declared top x names))
  | _, names, .declare d ds =>
    d.Fits kind around top names ∧ ds.Fits kind around top (d.after top names)
  | _, names, .method x params body ms =>
    let inside := names :: around
    params.length ≤ maxArity ∧
      (captured .method params body inside).dedup.length ≤ maxOperands ∧
      (Literal.distinct (body.constants inside false
        (params.reverse ++ [BodyKind.method.slotZero]))).length ≤ maxOperands ∧
      body.Fits (if x = "init" then .initializer else .method) inside false
        (params.reverse ++ [BodyKind.method.slotZero]) ∧
      ms.Fits kind around top names
  | _, _, _ => True

/-- The program needs no more than there may be: levels of nesting, constants of its script, and what
its phrases need. -/
structure WithinLimits (ds : Stmt .declarations) : Prop where
  depth : ds.depth ≤ maxNesting
  constants : (Literal.distinct (ds.constants [] true [BodyKind.script.slotZero])).length ≤ maxOperands
  fits : ds.Fits .script [] true [BodyKind.script.slotZero]

end Lox.Syntax
