import Lox.Proofs.Compile.Course
import Lox.Proofs.Syntax.Tree

/-!
# Compiling a tree

The compiler decides by the next token what to do.  Where the tree of a phrase is known it can be
walked instead: `Expr.build` and `Stmt.build` do what the compiler does for the words of a tree, with
all decisions and names taken from the tree.  They read the same tokens, of which only the lines
matter to them.

`n` is always how many levels of phrases may be nested in the one at hand.
-/

namespace Lox.Syntax

open Compile

/-- Compiles a phrase one level further in. -/
def within (n : Nat) (phrase : Nat → Compiling Unit) : Compiling Unit :=
  match n with
  | 0 => refuseNesting
  | n + 1 => phrase n

/-! ## Expressions -/

/-- Adds the instruction of a word. -/
def emitWord : Option Leading → Compiling Unit
  | some (.literal i) | some (.unary i) => emit i
  | _ => pure ()

/-- Adds the instructions of an operator between two operands. -/
def emitOperator : Option (Precedence × Trailing) → Compiling Unit
  | some (_, .binary is) => is.forM emit
  | _ => pure ()

/-- Asks for a class around, which has to have a superclass. -/
def checkSuper : Compiling Unit := do
  match (← get).classes with
  | [] => complain .superOutsideClass
  | false :: _ => complain .superWithoutSuperclass
  | true :: _ => pure ()

/-- Pushes the receiver. -/
def readThis : Compiling Unit := do
  if (← get).classes.isEmpty then complain .thisOutsideClass else readVariable "this"

/-- Reads the words before the name of a method of the superclass, and pushes the receiver.  The
result is the constant of the name. -/
def superMethod (m : String) : Compiling UInt8 := do
  advance
  checkSuper
  advance
  advance
  let name ← stringConstant m
  readVariable "this"
  return name

/-- The number of arguments as an operand. -/
def argumentCount {s : ExprSort} (args : Expr s) : UInt8 := UInt8.ofNat (min args.count maxArity)

/-- Refuses one argument more than there may be, when `count` have been read before. -/
def checkArgument (count : Nat) : Compiling Unit := do
  if count = maxArity then complain .tooManyArguments

/-- Compiles a phrase of an expression.  Arguments have `count` others before them. -/
def Expr.build : {s : ExprSort} → Expr s → (n count : Nat) → Compiling Unit
  | _, .number text, _, _ => do
    advance
    emitConstant (.number (Decimal.read text))
  | _, .string text, _, _ => do
    advance
    emitConstant (.string (← internString (unquote text)))
  | _, .literal kind, _, _ => do
    advance
    emitWord (leading? kind)
  | _, .name x, _, _ => do
    advance
    readVariable x
  | _, .assign x value, n, _ => do
    advance
    let place ← access x
    advance
    within n (value.build · 0)
    emit place.write
  | _, .this, _, _ => do
    advance
    readThis
  | _, .superGet m, _, _ => do
    let name ← superMethod m
    readVariable "super"
    emit (.getSuper name)
  | _, .superCall m args, n, _ => do
    let name ← superMethod m
    advance
    args.build n 0
    advance
    readVariable "super"
    emit (.superInvoke name (argumentCount args))
  | _, .grouping e, n, _ => do
    advance
    within n (e.build · 0)
    advance
  | _, .unary op e, n, _ => do
    advance
    within n (e.build · 0)
    emitWord (leading? op)
  | _, .binary op l r, n, _ => do
    l.build n 0
    advance
    within n (r.build · 0)
    emitOperator (trailing? op)
  | _, .and l r, n, _ => do
    l.build n 0
    advance
    let stop ← emitJump .jumpIfFalse
    emit .pop
    within n (r.build · 0)
    land stop
  | _, .or l r, n, _ => do
    l.build n 0
    advance
    let right ← emitJump .jumpIfFalse
    let stop ← emitJump .jump
    land right
    emit .pop
    within n (r.build · 0)
    land stop
  | _, .call f args, n, _ => do
    f.build n 0
    advance
    args.build n 0
    advance
    emit (.call (argumentCount args))
  | _, .get e p, n, _ => do
    e.build n 0
    advance
    advance
    let name ← stringConstant p
    emit (.getProperty name)
  | _, .set e p value, n, _ => do
    e.build n 0
    advance
    advance
    let name ← stringConstant p
    advance
    within n (value.build · 0)
    emit (.setProperty name)
  | _, .invoke e p args, n, _ => do
    e.build n 0
    advance
    advance
    let name ← stringConstant p
    advance
    args.build n 0
    advance
    emit (.invoke name (argumentCount args))
  | _, .noArguments, _, _ => pure ()
  | _, .someArguments args, n, count => args.build n count
  | _, .lastArgument e, n, count => do
    within n (e.build · 0)
    checkArgument count
  | _, .argument e args, n, count => do
    within n (e.build · 0)
    checkArgument count
    advance
    args.build n (count + 1)

/-- Compiles an expression. -/
def Expr.expression (e : Expr .expression) (n : Nat) : Compiling Unit := within n (e.build · 0)

/-! ## Variables -/

/-- Declares a variable, unless it is a global. -/
def declareName (x : String) : Compiling Unit := do
  let s ← get
  unless s.body.depth = 0 do
    if s.body.isDeclaredHere x then complain .redeclared
    addLocal x

/-- Reads the name of a variable and declares it.  The result is the constant of the name if the
variable is a global. -/
def bindName (x : String) : Compiling UInt8 := do
  advance
  declareName x
  if (← get).body.depth = 0 then stringConstant x else return 0

/-- Compiles a variable declaration after its first word. -/
def buildBinding (x : String) (value : Option (Expr .expression)) (n : Nat) : Compiling Unit := do
  let constant ← bindName x
  match value with
  | none => emit .pushNil
  | some e => do
    advance
    e.expression n
  advance
  defineVariable constant

/-! ## Loops -/

/-- The loop variable with its slot. -/
def loopVariable : Compiling (Option (String × Nat)) := do
  return match (← get).body.locals with
    | [] => none
    | v :: outer => some (v.name, outer.length)

/-- Compiles the first clause of a for loop.  The result is the loop variable with its slot, if there
is one. -/
def Initializer.build (n : Nat) : Initializer → Compiling (Option (String × Nat))
  | .none => do
    advance
    return Option.none
  | .var x value => do
    advance
    buildBinding x value n
    loopVariable
  | .expression e => do
    e.expression n
    advance
    emit .pop
    return Option.none

/-- Compiles the condition of a for loop.  The result is the jump that leaves the loop. -/
def buildCondition (n : Nat) : Option (Expr .expression) → Compiling (Option JumpSite)
  | none => do
    advance
    return none
  | some e => do
    e.expression n
    advance
    let exit ← emitJump .jumpIfFalse
    emit .pop
    return some exit

/-- Compiles the increment of a for loop that starts at an offset.  The result is where the body has
to jump back to. -/
def buildIncrement (n start : Nat) : Option (Expr .expression) → Compiling Nat
  | none => do
    advance
    return start
  | some e => do
    let enter ← emitJump .jump
    let increment := (← get).body.size
    e.expression n
    emit .pop
    advance
    emitLoop start
    land enter
    return increment

/-! ## Functions and classes -/

/-- Refuses parameter number `count` if there may not be so many. -/
def checkParameter (count : Nat) : Compiling Unit := do
  if maxArity < count then complainHere .tooManyParameters

/-- Compiles parameters, the first of them being number `count`, with commas between them. -/
def buildParameters : List String → Nat → Compiling Unit
  | [], _ => pure ()
  | x :: params, count => do
    checkParameter count
    modifyBody fun b => { b with arity := min count maxArity }
    let constant ← bindName x
    defineVariable constant
    unless params.isEmpty do
      advance
      buildParameters params (count + 1)

/-- Compiles the parameters and the body of a function, and pushes a closure of it. -/
def buildFunction (kind : BodyKind) (x : String) (params : List String) (body : Compiling Unit) :
    Compiling Unit := do
  openBody kind x
  beginScope
  advance
  buildParameters params 1
  advance
  advance
  body
  let (prototype, captures) ← closeFunction
  let index ← makeConstant (.prototype prototype)
  emit (.closure index captures)

/-- Inherits the methods of a superclass, if the class has one. -/
def buildSuperclass (x : String) : Option String → Compiling Unit
  | none => pure ()
  | some y => do
    advance
    advance
    readVariable y
    if y = x then complain .inheritsItself
    beginScope
    addLocal "super"
    markInitialized
    readVariable x
    emit .inherit
    modify fun s => { s with classes := true :: s.classes.drop 1 }

/-- Leaves a class, and the scope of its superclass if it has one. -/
def leaveClass : Compiling Unit := do
  let hasSuperclass := (← get).classes.headD false
  modify fun s => { s with classes := s.classes.drop 1 }
  if hasSuperclass then endScope

/-! ## Statements -/

/-- Refuses a return outside of all functions. -/
def checkInside : Compiling Unit := do
  if (← get).body.kind = .script then complain .returnFromScript

/-- Refuses a return with a value in an initializer. -/
def checkPlain : Compiling Unit := do
  if (← get).body.kind = .initializer then complain .valueFromInitializer

/-- The level at which the body of a for loop is compiled by an action. -/
def bodyLevel (body : Compiling Unit) : Level := ⟨body, fun _ => body, body⟩

/-- Compiles a phrase of a statement or declaration. -/
def Stmt.build : {s : StmtSort} → Stmt s → (n : Nat) → Compiling Unit
  | _, .print e, n => do
    advance
    e.expression n
    advance
    emit .print
  | _, .expression e, n => do
    e.expression n
    advance
    emit .pop
  | _, .ret none, _ => do
    advance
    checkInside
    advance
    emitReturn
  | _, .ret (some e), n => do
    advance
    checkInside
    checkPlain
    e.expression n
    advance
    emit .ret
  | _, .ifThen c t, n => do
    advance
    advance
    c.expression n
    advance
    let otherwise ← emitJump .jumpIfFalse
    emit .pop
    within n t.build
    let stop ← emitJump .jump
    land otherwise
    emit .pop
    land stop
  | _, .ifElse c t e, n => do
    advance
    advance
    c.expression n
    advance
    let otherwise ← emitJump .jumpIfFalse
    emit .pop
    within n t.build
    let stop ← emitJump .jump
    land otherwise
    emit .pop
    advance
    within n e.build
    land stop
  | _, .whileLoop c body, n => do
    advance
    let start := (← get).body.size
    advance
    c.expression n
    advance
    let exit ← emitJump .jumpIfFalse
    emit .pop
    within n body.build
    emitLoop start
    land exit
    emit .pop
  | _, .forLoop first c step body, n => do
    advance
    beginScope
    advance
    let loopVariable ← first.build n
    let start := (← get).body.size
    let exit ← buildCondition n c
    let back ← buildIncrement n start step
    forBody (bodyLevel (within n body.build)) loopVariable
    emitLoop back
    forExit exit
    endScope
  | _, .block ds, n => do
    advance
    beginScope
    ds.build n
    advance
    endScope
  | _, .statement s, n => within n s.build
  | _, .var x value, n => do
    advance
    buildBinding x value n
  | _, .function x params body, n => do
    advance
    let constant ← bindName x
    markInitialized
    buildFunction .function x params (within n fun n => do body.build n; advance)
    defineVariable constant
  | _, .cls x superclass ms, n => do
    advance
    advance
    let constant ← stringConstant x
    declareName x
    emit (.makeClass constant)
    defineVariable constant
    modify fun s => { s with classes := false :: s.classes }
    buildSuperclass x superclass
    readVariable x
    advance
    ms.build n
    advance
    emit .pop
    leaveClass
  | _, .noDeclarations, _ => pure ()
  | _, .declare d ds, n => do
    d.build n
    ds.build n
  | _, .noMethods, _ => pure ()
  | _, .method x params body ms, n => do
    advance
    let constant ← stringConstant x
    let kind : BodyKind := if x = "init" then .initializer else .method
    buildFunction kind x params (within n fun n => do body.build n; advance)
    emit (.method constant)
    ms.build n

/-- Compiles a program to the function of its script. -/
def Stmt.buildScript (ds : Stmt .declarations) : Compiling Prototype := do
  advance
  ds.build maxNesting
  advance
  return (← closeBody).1

/-! ## The course of building -/

section Course

variable {R : State → State → Prop} [Course R]

instance (n : Nat) (phrase : Nat → Compiling Unit) [∀ m, Follows R (phrase m)] :
    Follows R (within n phrase) := by
  cases n <;> unfold within <;> infer_instance

instance (word : Option Leading) : Follows R (emitWord word) := by
  unfold emitWord
  split <;> infer_instance

instance (word : Option (Precedence × Trailing)) : Follows R (emitOperator word) := by
  unfold emitOperator
  split <;> infer_instance

instance : Follows R checkSuper := by
  unfold checkSuper
  refine follows_bind inferInstance fun s => ?_
  split <;> infer_instance

instance : Follows R readThis := by unfold readThis; infer_instance

instance (m : String) : Follows R (superMethod m) := by unfold superMethod; infer_instance

instance (count : Nat) : Follows R (checkArgument count) := by unfold checkArgument; infer_instance

instance {s : ExprSort} (e : Expr s) (n count : Nat) : Follows R (e.build n count) := by
  induction e generalizing n count <;> unfold Expr.build <;> infer_instance

instance (e : Expr .expression) (n : Nat) : Follows R (e.expression n) := by
  unfold Expr.expression; infer_instance

instance (x : String) : Follows R (declareName x) := by unfold declareName; infer_instance

instance (x : String) : Follows R (bindName x) := by unfold bindName; infer_instance

instance (x : String) (value : Option (Expr .expression)) (n : Nat) :
    Follows R (buildBinding x value n) := by
  unfold buildBinding
  cases value <;> infer_instance

instance : Follows R loopVariable := by unfold loopVariable; infer_instance

instance (n : Nat) (first : Initializer) : Follows R (first.build n) := by
  cases first <;> unfold Initializer.build <;> infer_instance

instance (n : Nat) (c : Option (Expr .expression)) : Follows R (buildCondition n c) := by
  cases c <;> unfold buildCondition <;> infer_instance

instance (n start : Nat) (step : Option (Expr .expression)) :
    Follows R (buildIncrement n start step) := by
  cases step <;> unfold buildIncrement <;> infer_instance

instance (count : Nat) : Follows R (checkParameter count) := by unfold checkParameter; infer_instance

instance (params : List String) (count : Nat) : Follows R (buildParameters params count) := by
  induction params generalizing count with
  | nil => unfold buildParameters; infer_instance
  | cons x params ih => unfold buildParameters; infer_instance

instance (kind : BodyKind) (x : String) (params : List String) (body : Compiling Unit)
    [Follows R body] : Follows R (buildFunction kind x params body) := by
  unfold buildFunction; infer_instance

instance (x : String) (superclass : Option String) : Follows R (buildSuperclass x superclass) := by
  cases superclass <;> unfold buildSuperclass <;> infer_instance

instance : Follows R leaveClass := by unfold leaveClass; infer_instance

instance : Follows R checkInside := by unfold checkInside; infer_instance

instance : Follows R checkPlain := by unfold checkPlain; infer_instance

instance (body : Compiling Unit) [Follows R body] : (bodyLevel body).Follows R :=
  ⟨‹_›, fun _ => ‹_›, ‹_›⟩

instance {s : StmtSort} (t : Stmt s) (n : Nat) : Follows R (t.build n) := by
  induction t generalizing n with
  | ret value => cases value <;> unfold Stmt.build <;> infer_instance
  | _ => unfold Stmt.build; infer_instance

instance (ds : Stmt .declarations) : Follows R ds.buildScript := by
  unfold Stmt.buildScript; infer_instance

end Course

end Lox.Syntax
