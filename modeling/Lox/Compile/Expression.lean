import Lox.Compile.Operator
import Lox.Compile.Variable
import Lox.Decimal.Literal

/-!
# Expressions

Expressions are read by the precedence of their operators.  The phrases of the grammar contain one
another, and how deep they may do so is limited; a `Level` has the actions that read the phrases
one level further in, so the actions here take the level that they may use and never call
themselves.
-/

namespace Lox.Compile

/-- The actions that read a nested phrase. -/
structure Level where
  /-- Reads a statement. -/
  statement : Compiling Unit
  /-- Reads an expression whose operators bind at least as tightly as the given precedence. -/
  operators : Precedence → Compiling Unit
  /-- Reads the declarations of a function body and its closing brace. -/
  block : Compiling Unit

/-- Reads an expression. -/
def Level.expression (inner : Level) : Compiling Unit := inner.operators .assignment

/-! ## Arguments -/

/-- Reads arguments with commas between them, `count` having been read before. -/
def arguments (inner : Level) : Nat → Nat → Compiling Nat
  | 0, count => do
    fail .endless
    return count
  | fuel + 1, count => do
    inner.expression
    if count = maxArity then complain .tooManyArguments
    if ← accept .comma then arguments inner fuel (count + 1) else return count + 1

/-- Reads the arguments of a call and its closing parenthesis; the result is their number. -/
def argumentList (inner : Level) : Compiling UInt8 := do
  let count ←
    if ← check .rightParen then pure 0 else arguments inner (← get).budget 0
  expect .rightParen "')' after arguments"
  return UInt8.ofNat (min count maxArity)

/-! ## Operands -/

/-- Reads the rest of a variable whose name has been read: an assignment to it, or nothing. -/
def variableUse (inner : Level) (canAssign : Bool) : Compiling Unit := do
  let place ← access (← get).previous.lexeme
  let assigns ← if canAssign then accept .equal else pure false
  if assigns then
    inner.expression
    emit place.write
  else
    emit place.read

/-- Reads the rest of an access to a method of the superclass. -/
def superAccess (inner : Level) : Compiling Unit := do
  match (← get).classes with
  | [] => complain .superOutsideClass
  | false :: _ => complain .superWithoutSuperclass
  | true :: _ => pure ()
  expect .dot "'.' after 'super'"
  expect .identifier "superclass method name"
  let name ← stringConstant (← get).previous.lexeme
  readVariable "this"
  if ← accept .leftParen then
    let count ← argumentList inner
    readVariable "super"
    emit (.superInvoke name count)
  else
    readVariable "super"
    emit (.getSuper name)

/-- Can the first and the last byte of a text be taken off?  They have to be two characters. -/
def isQuoted (lexeme : String) : Bool :=
  let cs := lexeme.toList
  2 ≤ cs.length && cs.head?.all (·.utf8Size = 1) && cs.getLast?.all (·.utf8Size = 1)

/-- The content of a string literal: its characters between the quotes. -/
def unquote (lexeme : String) : String := String.ofList (lexeme.toList.tail.dropLast)

/-- Reads a string literal. -/
def stringLiteral : Compiling Unit := do
  let lexeme := (← get).previous.lexeme
  unless isQuoted lexeme do fail .unquoted
  emitConstant (.string (← internString (unquote lexeme)))

/-- Reads what the token last read has started. -/
def readLeading (inner : Level) (canAssign : Bool) : Leading → Compiling Unit
  | .grouping => do
    inner.expression
    expect .rightParen "')' after expression"
  | .unary i => do
    inner.operators .unary
    emit i
  | .number => do emitConstant (.number (Decimal.read (← get).previous.lexeme))
  | .string => stringLiteral
  | .literal i => emit i
  | .name => variableUse inner canAssign
  | .this => do
    if (← get).classes.isEmpty then complain .thisOutsideClass
    else readVariable (← get).previous.lexeme
  | .super => superAccess inner

/-! ## Operators after an operand -/

/-- Reads the rest of an access to a property: an assignment to it, a call of it, or nothing. -/
def property (inner : Level) (canAssign : Bool) : Compiling Unit := do
  expect .identifier "property name after '.'"
  let name ← stringConstant (← get).previous.lexeme
  let assigns ← if canAssign then accept .equal else pure false
  if assigns then
    inner.expression
    emit (.setProperty name)
  else if ← accept .leftParen then
    let count ← argumentList inner
    emit (.invoke name count)
  else
    emit (.getProperty name)

/-- Reads what the token last read continues.  The right operand of a binary operator binds
tighter than the operator, so that equal operators group to the left; `and` and `or` jump over
their right operand when the left one decides. -/
def readTrailing (inner : Level) (canAssign : Bool) (precedence : Precedence) :
    Trailing → Compiling Unit
  | .call => do
    let count ← argumentList inner
    emit (.call count)
  | .property => property inner canAssign
  | .binary is => do
    inner.operators precedence.next
    is.forM emit
  | .and => do
    let stop ← emitJump .jumpIfFalse
    emit .pop
    inner.operators .and
    land stop
  | .or => do
    let right ← emitJump .jumpIfFalse
    let stop ← emitJump .jump
    land right
    emit .pop
    inner.operators .or
    land stop

/-- Reads the operators that follow an operand and bind at least as tightly as `least`. -/
def trailingOperators (inner : Level) (least : Precedence) (canAssign : Bool) :
    Nat → Compiling Unit
  | 0 => fail .endless
  | fuel + 1 => do
    match trailing? (← get).current.kind with
    | none => pure ()
    | some (precedence, operator) =>
      if least ≤ precedence then
        advance
        readTrailing inner canAssign precedence operator
        trailingOperators inner least canAssign fuel

/-- Reads an expression whose operators bind at least as tightly as `least`.  Only an expression
that may contain an assignment may be the target of one. -/
def operatorsBody (inner : Level) (least : Precedence) : Compiling Unit := do
  advance
  let canAssign : Bool := least ≤ .assignment
  match leading? (← get).previous.kind with
  | none => complain (.expected "expression")
  | some start =>
    readLeading inner canAssign start
    trailingOperators inner least canAssign (← get).budget
    let assigns ← if canAssign then accept .equal else pure false
    if assigns then complain .invalidAssignment

end Lox.Compile
