import Lox.Compile.Expression
import Lox.Machine.State
import Lox.Proofs.Syntax.Tree
import Mathlib.Tactic.Lemma

/-!
# Programs without functions

The part of the language without functions, classes and properties: its trees (`Plain.Expr`,
`Plain.Stmt`), and what they mean, told without a machine.  An environment (`Env`) has the local
variables that are in scope, the globals and the lines printed so far.  Expressions are evaluated from
left to right (`Expr.eval`), and a statement changes the environment (`Stmt.execute`).

A loop makes at most so many turns as it is given fuel, so that executing a program is a function; a
program terminates if some amount of fuel is enough for it.
-/

namespace Lox

/-- What a value looks like to a program that cannot tell string objects of the same content apart. -/
inductive Datum where
  | nil
  | bool (b : Bool)
  | number (x : Float)
  | string (content : String)
  /-- Anything else is passed around as it is. -/
  | object (v : Value)

/-- What the value looks like. -/
def Value.datum : Value → Datum
  | .nil => .nil
  | .bool b => .bool b
  | .number x => .number x
  | .string s => .string s.content
  | v => .object v

namespace Datum

/-- Nil and false count as false, all others as true. -/
def isFalsey : Datum → Bool
  | .nil | .bool false => true
  | _ => false

/-- Numbers are compared as numbers, strings by content. -/
def same : Datum → Datum → Bool
  | .nil, .nil => true
  | .bool a, .bool b => a == b
  | .number x, .number y => x == y
  | .string s, .string t => s == t
  | .object v, .object w => v.same w
  | _, _ => false

/-- How it is printed. -/
def display : Datum → String
  | .nil => Value.nil.display
  | .bool b => (Value.bool b).display
  | .number x => (Value.number x).display
  | .string content => content
  | .object v => v.display

end Datum

@[simp] lemma Value.isFalsey_datum (v : Value) : v.datum.isFalsey = v.isFalsey := by
  cases v with
  | bool b => cases b <;> rfl
  | _ => rfl

@[simp] lemma Value.same_datum (v w : Value) : v.datum.same w.datum = v.same w := by
  cases v <;> cases w <;> rfl

@[simp] lemma Value.display_datum (v : Value) : v.datum.display = v.display := by
  cases v <;> rfl

namespace Plain

open Compile Syntax

/-! ## Trees -/

/-- The operators before an operand. -/
inductive UnaryOp where
  | negate | not

/-- The operators between two operands, apart from `and` and `or`. -/
inductive BinaryOp where
  | add | subtract | multiply | divide
  | equal | notEqual | less | lessEqual | greater | greaterEqual

/-- The token of an operator. -/
def UnaryOp.token : UnaryOp → TokenKind
  | .negate => .minus
  | .not => .bang

/-- The token of an operator. -/
def BinaryOp.token : BinaryOp → TokenKind
  | .add => .plus
  | .subtract => .minus
  | .multiply => .star
  | .divide => .slash
  | .equal => .equalEqual
  | .notEqual => .bangEqual
  | .less => .less
  | .lessEqual => .lessEqual
  | .greater => .greater
  | .greaterEqual => .greaterEqual

/-- Expressions without calls and properties. -/
inductive Expr where
  | number (text : String)
  /-- A string literal with its quotes. -/
  | string (text : String)
  | nil
  | bool (b : Bool)
  | name (x : String)
  | assign (x : String) (value : Expr)
  | grouping (e : Expr)
  | unary (op : UnaryOp) (e : Expr)
  | binary (op : BinaryOp) (l r : Expr)
  | and (l r : Expr)
  | or (l r : Expr)

/-- The first clause of a for loop. -/
inductive Initializer where
  | none
  | var (x : String) (value : Option Expr)
  | expression (e : Expr)

/-- Statements and declarations without functions and classes. -/
inductive Stmt : StmtSort → Type where
  | print (e : Expr) : Stmt .statement
  | expression (e : Expr) : Stmt .statement
  | ifThen (c : Expr) (t : Stmt .statement) : Stmt .statement
  | ifElse (c : Expr) (t e : Stmt .statement) : Stmt .statement
  | whileLoop (c : Expr) (body : Stmt .statement) : Stmt .statement
  | forLoop (first : Initializer) (c step : Option Expr) (body : Stmt .statement) : Stmt .statement
  | block (ds : Stmt .declarations) : Stmt .statement
  | statement (s : Stmt .statement) : Stmt .declaration
  | var (x : String) (value : Option Expr) : Stmt .declaration
  | noDeclarations : Stmt .declarations
  | declare (d : Stmt .declaration) (ds : Stmt .declarations) : Stmt .declarations

/-- The expression as a tree of the whole language. -/
def Expr.tree : Expr → Syntax.Expr .expression
  | .number text => .number text
  | .string text => .string text
  | .nil => .literal .kwNil
  | .bool b => .literal (if b then .kwTrue else .kwFalse)
  | .name x => .name x
  | .assign x value => .assign x value.tree
  | .grouping e => .grouping e.tree
  | .unary op e => .unary op.token e.tree
  | .binary op l r => .binary op.token l.tree r.tree
  | .and l r => .and l.tree r.tree
  | .or l r => .or l.tree r.tree

/-- The clause as one of the whole language. -/
def Initializer.tree : Initializer → Syntax.Initializer
  | .none => .none
  | .var x value => .var x (value.map Expr.tree)
  | .expression e => .expression e.tree

/-- The phrase as a tree of the whole language. -/
def Stmt.tree : {s : StmtSort} → Stmt s → Syntax.Stmt s
  | _, .print e => .print e.tree
  | _, .expression e => .expression e.tree
  | _, .ifThen c t => .ifThen c.tree t.tree
  | _, .ifElse c t e => .ifElse c.tree t.tree e.tree
  | _, .whileLoop c body => .whileLoop c.tree body.tree
  | _, .forLoop first c step body =>
    .forLoop first.tree (c.map Expr.tree) (step.map Expr.tree) body.tree
  | _, .block ds => .block ds.tree
  | _, .statement s => .statement s.tree
  | _, .var x value => .var x (value.map Expr.tree)
  | _, .noDeclarations => .noDeclarations
  | _, .declare d ds => .declare d.tree ds.tree

/-! ## Environments -/

/-- What a program is executed in. -/
structure Env where
  /-- The local variables in scope, the innermost first. -/
  locals : List (String × Datum)
  globals : String → Option Datum
  /-- The lines printed so far. -/
  printed : List String

/-- Why a program is not executed to its end. -/
inductive Halt where
  | error (e : RuntimeError)
  /-- A loop has made all the turns it was given. -/
  | outOfTurns

/-- What is done with an environment. -/
abbrev Eval := EStateM Halt Env

/-- The value of the innermost variable of a name. -/
def look (x : String) : List (String × Datum) → Option Datum
  | [] => none
  | (y, d) :: outer => if y = x then some d else look x outer

/-- Gives the innermost variable of a name another value. -/
def put (x : String) (d : Datum) : List (String × Datum) → List (String × Datum)
  | [] => []
  | (y, e) :: outer => if y = x then (y, d) :: outer else (y, e) :: put x d outer

namespace Env

/-- The value that a name has. -/
def find? (env : Env) (x : String) : Option Datum :=
  (look x env.locals).or (env.globals x)

/-- Gives a global a value, whether it existed or not. -/
def define (env : Env) (x : String) (d : Datum) : Env :=
  { env with globals := fun y => if x = y then some d else env.globals y }

/-- Gives the variable that a name means a value. -/
def assign (env : Env) (x : String) (d : Datum) : Env :=
  if (look x env.locals).isSome then { env with locals := put x d env.locals } else env.define x d

end Env

/-- Stops with an error. -/
def fail {α : Type} (e : RuntimeError) : Eval α := throw (.error e)

/-- The value that a name has, which must have one. -/
def readVariable (x : String) : Eval Datum := do
  match (← get).find? x with
  | some d => return d
  | none => fail (.undefinedVariable x)

lemma readVariable_known {env : Env} {x : String} {d : Datum} (known : env.find? x = some d) :
    readVariable x env = .ok d env := by
  show (match env.find? x with | some d => _ | none => _ : Eval Datum) env = _
  rw [known]
  rfl

lemma readVariable_unknown {env : Env} {x : String} (unknown : env.find? x = none) :
    readVariable x env = .error (.error (.undefinedVariable x)) env := by
  show (match env.find? x with | some d => _ | none => _ : Eval Datum) env = _
  rw [unknown]
  rfl

/-- Gives a variable that exists another value. -/
def writeVariable (x : String) (d : Datum) : Eval Unit := do
  if ((← get).find? x).isSome then modify (·.assign x d) else fail (.undefinedVariable x)

/-- Declares a variable: a global, or else a local of the innermost scope. -/
def declareVariable (top : Bool) (x : String) (d : Datum) : Eval Unit :=
  modify fun env => if top then env.define x d else { env with locals := (x, d) :: env.locals }

/-- Local variables that are declared are in scope until it is done. -/
def locally (act : Eval Unit) : Eval Unit := do
  let outside := (← get).locals.length
  act
  modify fun env => { env with locals := env.locals.drop (env.locals.length - outside) }

/-- Prints a line. -/
def printLine (d : Datum) : Eval Unit :=
  modify fun env => { env with printed := env.printed ++ [d.display] }

/-! ## Operators -/

/-- What comes of two numbers. -/
def numeric (f : Float → Float → Datum) : Datum → Datum → Eval Datum
  | .number x, .number y => return f x y
  | _, _ => fail .operandsNotNumbers

/-- What comes of an operand. -/
def UnaryOp.apply : UnaryOp → Datum → Eval Datum
  | .not, d => return .bool d.isFalsey
  | .negate, .number x => return .number (-x)
  | .negate, _ => fail .operandNotNumber

/-- What comes of two operands.  The mixed comparisons are negations of the strict ones. -/
def BinaryOp.apply : BinaryOp → Datum → Datum → Eval Datum
  | .add, .string s, .string t => return .string (s ++ t)
  | .add, .number x, .number y => return .number (x + y)
  | .add, _, _ => fail .operandsNotAddable
  | .subtract, a, b => numeric (fun x y => .number (x - y)) a b
  | .multiply, a, b => numeric (fun x y => .number (x * y)) a b
  | .divide, a, b => numeric (fun x y => .number (x / y)) a b
  | .equal, a, b => return .bool (a.same b)
  | .notEqual, a, b => return .bool (!a.same b)
  | .less, a, b => numeric (fun x y => .bool (decide (x < y))) a b
  | .lessEqual, a, b => numeric (fun x y => .bool (!decide (x > y))) a b
  | .greater, a, b => numeric (fun x y => .bool (decide (x > y))) a b
  | .greaterEqual, a, b => numeric (fun x y => .bool (!decide (x < y))) a b

/-! ## Execution -/

/-- Evaluates an expression. -/
def Expr.eval : Expr → Eval Datum
  | .number text => return .number (Decimal.read text)
  | .string text => return .string (unquote text)
  | .nil => return .nil
  | .bool b => return .bool b
  | .name x => readVariable x
  | .assign x value => do
    let d ← value.eval
    writeVariable x d
    return d
  | .grouping e => e.eval
  | .unary op e => do op.apply (← e.eval)
  | .binary op l r => do
    let a ← l.eval
    let b ← r.eval
    op.apply a b
  | .and l r => do
    let a ← l.eval
    if a.isFalsey then return a else r.eval
  | .or l r => do
    let a ← l.eval
    if a.isFalsey then r.eval else return a

/-- The initial value of a variable. -/
def initialValue : Option Expr → Eval Datum
  | none => return .nil
  | some e => e.eval

/-- Does the loop go on? -/
def condition : Option Expr → Eval Bool
  | none => return true
  | some c => return !(← c.eval).isFalsey

/-- What is done after each turn. -/
def increment : Option Expr → Eval Unit
  | none => return ()
  | some e => do let _ ← e.eval

/-- The turns of a loop, at most so many. -/
def turns (c step : Option Expr) (body : Eval Unit) : Nat → Eval Unit
  | 0 => throw .outOfTurns
  | fuel + 1 => do
    if ← condition c then
      body
      increment step
      turns c step body fuel

/-- Executes the first clause of a for loop. -/
def Initializer.execute : Initializer → Eval Unit
  | .none => return ()
  | .var x value => do declareVariable false x (← initialValue value)
  | .expression e => do let _ ← e.eval

/-- Executes a phrase; `top` tells whether its variables are globals. -/
def Stmt.execute (fuel : Nat) : {s : StmtSort} → (top : Bool) → Stmt s → Eval Unit
  | _, _, .print e => do printLine (← e.eval)
  | _, _, .expression e => do let _ ← e.eval
  | _, _, .ifThen c t => do
    let a ← c.eval
    if a.isFalsey then return () else t.execute fuel false
  | _, _, .ifElse c t e => do
    let a ← c.eval
    if a.isFalsey then e.execute fuel false else t.execute fuel false
  | _, _, .whileLoop c body => turns (some c) none (body.execute fuel false) fuel
  | _, _, .forLoop first c step body => locally do
    first.execute
    turns c step (body.execute fuel false) fuel
  | _, _, .block ds => locally (ds.execute fuel false)
  | _, top, .statement s => s.execute fuel top
  | _, top, .var x value => do declareVariable top x (← initialValue value)
  | _, _, .noDeclarations => return ()
  | _, top, .declare d ds => do
    d.execute fuel top
    ds.execute fuel top

end Plain

end Lox
