import Lox.Compile.Expression

/-!
# Statements and declarations

The statements and declarations of the language, each read and emitted in one go.  Whatever a
phrase contains it reads through the `Level` it is given.
-/

namespace Lox.Compile

/-! ## Functions -/

/-- Reads parameters with commas between them, the next one being number `count`. -/
def parameters : Nat → Nat → Compiling Unit
  | 0, _ => fail .endless
  | fuel + 1, count => do
    if maxArity < count then complainHere .tooManyParameters
    modifyBody fun b => { b with arity := min count maxArity }
    let constant ← parseVariable "parameter name"
    defineVariable constant
    if ← accept .comma then parameters fuel (count + 1)

/-- Reads the parameters and the body of a function whose name has been read, and pushes a closure
of it. -/
def function (inner : Level) (kind : BodyKind) : Compiling Unit := do
  openBody kind (← get).previous.lexeme
  beginScope
  expect .leftParen "'(' after function name"
  unless ← check .rightParen do
    parameters (← get).budget 1
  expect .rightParen "')' after parameters"
  expect .leftBrace "'\x7b' before function body"
  inner.block
  let (prototype, captures) ← closeFunction
  let index ← makeConstant (.prototype prototype)
  emit (.closure index captures)

/-- Reads a function declaration.  A function may refer to itself, so its variable is in scope
before its body is read. -/
def functionDeclaration (inner : Level) : Compiling Unit := do
  let constant ← parseVariable "function name"
  markInitialized
  function inner .function
  defineVariable constant

/-! ## Classes -/

/-- Reads a method and puts it into the class on top of the stack. -/
def method (inner : Level) : Compiling Unit := do
  expect .identifier "method name"
  let name := (← get).previous.lexeme
  let constant ← stringConstant name
  function inner (if name = "init" then .initializer else .method)
  emit (.method constant)

/-- Reads the methods of a class. -/
def methods (inner : Level) : Nat → Compiling Unit
  | 0 => fail .endless
  | fuel + 1 => do
    unless ← atBlockEnd do
      method inner
      methods inner fuel

/-- Reads the superclass of a class, if it has one, and inherits its methods.  The superclass stays
on the stack in a hidden variable, so that methods can capture it. -/
def superclass (className : String) : Compiling Unit := do
  if ← accept .less then
    expect .identifier "superclass name"
    let name := (← get).previous.lexeme
    readVariable name
    if name = className then complain .inheritsItself
    beginScope
    addLocal "super"
    markInitialized
    readVariable className
    emit .inherit
    modify fun s => { s with classes := true :: s.classes.drop 1 }

/-- Reads a class declaration. -/
def classDeclaration (inner : Level) : Compiling Unit := do
  expect .identifier "class name"
  let className := (← get).previous.lexeme
  let constant ← stringConstant className
  declareVariable
  emit (.makeClass constant)
  defineVariable constant
  modify fun s => { s with classes := false :: s.classes }
  superclass className
  -- The class stays on the stack while its methods are put into it.
  readVariable className
  expect .leftBrace "'\x7b' before class body"
  methods inner (← get).budget
  expect .rightBrace "'\x7d' after class body"
  emit .pop
  let hasSuperclass := (← get).classes.headD false
  modify fun s => { s with classes := s.classes.drop 1 }
  if hasSuperclass then endScope

/-! ## Variables -/

/-- Reads a variable declaration. -/
def variableDeclaration (inner : Level) : Compiling Unit := do
  let constant ← parseVariable "variable name"
  if ← accept .equal then inner.expression else emit .pushNil
  expect .semicolon "';' after variable declaration"
  defineVariable constant

/-! ## Declarations -/

/-- Reads a declaration or statement.  After an error it reads on to where the next one starts. -/
def declaration (inner : Level) : Compiling Unit := do
  if ← accept .kwClass then classDeclaration inner
  else if ← accept .kwFun then functionDeclaration inner
  else if ← accept .kwVar then variableDeclaration inner
  else inner.statement
  if (← get).panicking then synchronize

/-- Reads the declarations of a block. -/
def declarations (inner : Level) : Nat → Compiling Unit
  | 0 => fail .endless
  | fuel + 1 => do
    unless ← atBlockEnd do
      declaration inner
      declarations inner fuel

/-- Reads a block whose opening brace has been read. -/
def blockBody (inner : Level) : Compiling Unit := do
  declarations inner (← get).budget
  expect .rightBrace "'\x7d' after block"

/-! ## Statements -/

/-- Reads a print statement. -/
def printStatement (inner : Level) : Compiling Unit := do
  inner.expression
  expect .semicolon "';' after value"
  emit .print

/-- Reads an expression whose value is dropped. -/
def expressionStatement (inner : Level) : Compiling Unit := do
  inner.expression
  expect .semicolon "';' after expression"
  emit .pop

/-- Reads a return statement. -/
def returnStatement (inner : Level) : Compiling Unit := do
  if (← get).body.kind = .script then complain .returnFromScript
  if ← accept .semicolon then emitReturn
  else
    if (← get).body.kind = .initializer then complain .valueFromInitializer
    inner.expression
    expect .semicolon "';' after return value"
    emit .ret

/-- Reads a conditional.  Either branch starts by dropping the condition. -/
def ifStatement (inner : Level) : Compiling Unit := do
  expect .leftParen "'(' after 'if'"
  inner.expression
  expect .rightParen "')' after condition"
  let otherwise ← emitJump .jumpIfFalse
  emit .pop
  inner.statement
  let stop ← emitJump .jump
  land otherwise
  emit .pop
  if ← accept .kwElse then inner.statement
  land stop

/-- Reads a while loop. -/
def whileStatement (inner : Level) : Compiling Unit := do
  let start := (← get).body.size
  expect .leftParen "'(' after 'while'"
  inner.expression
  expect .rightParen "')' after condition"
  let exit ← emitJump .jumpIfFalse
  emit .pop
  inner.statement
  emitLoop start
  land exit
  emit .pop

/-- Reads the first clause of a for loop.  The result is the loop variable with its slot, if the
clause declares one. -/
def forInitializer (inner : Level) : Compiling (Option (String × Nat)) := do
  if ← accept .semicolon then return none
  else if ← accept .kwVar then
    variableDeclaration inner
    return match (← get).body.locals with
      | [] => none
      | v :: outer => some (v.name, outer.length)
  else
    expressionStatement inner
    return none

/-- Reads the condition of a for loop.  The result is the jump that leaves the loop, if there is a
condition. -/
def forCondition (inner : Level) : Compiling (Option JumpSite) := do
  if ← accept .semicolon then return none
  else
    inner.expression
    expect .semicolon "';' after loop condition"
    let exit ← emitJump .jumpIfFalse
    emit .pop
    return some exit

/-- Reads the increment of a for loop that starts at an offset.  The increment runs after the body,
so the way in jumps over it; the result is where the body has to jump back to. -/
def forIncrement (inner : Level) (start : Nat) : Compiling Nat := do
  if ← accept .rightParen then return start
  else
    let enter ← emitJump .jump
    let increment := (← get).body.size
    inner.expression
    emit .pop
    expect .rightParen "')' after for clauses"
    emitLoop start
    land enter
    return increment

/-- The slot of the last declared variable. -/
def lastSlot : Compiling Nat := do
  let locals := (← get).body.locals
  if locals.isEmpty then fail .noLocal
  return locals.length - 1

/-- Reads the body of a for loop.  Each turn works on its own copy of the loop variable, for
closures to capture, and copies it back at its end. -/
def forBody (inner : Level) : Option (String × Nat) → Compiling Unit
  | none => inner.statement
  | some (name, slot) => do
    beginScope
    emit (.getLocal (UInt8.ofNat slot))
    addLocal name
    markInitialized
    let copy ← lastSlot
    inner.statement
    emit (.getLocal (UInt8.ofNat copy))
    emit (.setLocal (UInt8.ofNat slot))
    emit .pop
    endScope

/-- Ends a for loop: the jump that leaves it leads here, where the condition is dropped. -/
def forExit : Option JumpSite → Compiling Unit
  | none => pure ()
  | some exit => do
    land exit
    emit .pop

/-- Reads a for loop. -/
def forStatement (inner : Level) : Compiling Unit := do
  beginScope
  expect .leftParen "'(' after 'for'"
  let loopVariable ← forInitializer inner
  let start := (← get).body.size
  let exit ← forCondition inner
  let back ← forIncrement inner start
  forBody inner loopVariable
  emitLoop back
  forExit exit
  endScope

/-- Reads a statement. -/
def statementBody (inner : Level) : Compiling Unit := do
  if ← accept .kwPrint then printStatement inner
  else if ← accept .kwIf then ifStatement inner
  else if ← accept .kwReturn then returnStatement inner
  else if ← accept .kwWhile then whileStatement inner
  else if ← accept .kwFor then forStatement inner
  else if ← accept .leftBrace then
    beginScope
    blockBody inner
    endScope
  else expressionStatement inner

end Lox.Compile
