import Lox.Compile.Body
import Lox.StringTable

/-!
# The state of a compilation

A compilation reads tokens from left to right with one token of lookahead and writes instructions
as it goes.  `State` has the place among the tokens, the diagnostics, the bodies and classes that
are open, and the string objects.  The actions here are the ones that everything else is built
from: moving on, complaining, and emitting.

After a complaint the compilation is panicking: it goes on, but complains no more until it has
found the start of the next statement.  A fault is another thing: an operation that has no result
where it is tried.  The state keeps the first one, so that there being none can be told.
-/

namespace Lox.Compile

/-- What would stop a compilation dead. -/
inductive Fault where
  /-- A loop goes on although all tokens have been read. -/
  | endless
  /-- A function ends where no body is open around it. -/
  | noBodyAround
  /-- A jump starts beyond the end of the code. -/
  | jumpFromBeyond
  /-- A loop goes back to a place beyond the end of the code. -/
  | loopToBeyond
  /-- A string literal has no quotes to take off. -/
  | unquoted
  /-- There is no last local variable. -/
  | noLocal
  deriving DecidableEq, Repr

/-- The state of a compilation. -/
structure State where
  /-- The token last read. -/
  previous : Token
  /-- The token to read next. -/
  current : Token
  /-- The tokens after that one. -/
  rest : List Token
  /-- The number of tokens of the source.  No loop turns more often. -/
  budget : Nat
  panicking : Bool
  diagnostics : Array Diagnostic
  /-- The innermost open body. -/
  body : Body
  /-- The bodies around it, the nearest first. -/
  enclosing : List Body
  /-- The open classes, the innermost first: has the class a superclass? -/
  classes : List Bool
  strings : StringTable
  /-- The serial number of the next prototype. -/
  serial : Nat
  /-- The functions finished before the first complaint. -/
  finished : Array Prototype
  /-- The first fault there was. -/
  fault : Option Fault

/-- An action of the compilation. -/
abbrev Compiling := StateM State

/-! ## Complaints -/

/-- Complains about a token, unless panicking. -/
def State.complainOf (s : State) (token : Token) (complaint : Complaint) : State :=
  if s.panicking then s
  else { s with panicking := true, diagnostics := s.diagnostics.push ⟨token, complaint⟩ }

/-- Complains about the token last read. -/
def complain (complaint : Complaint) : Compiling Unit :=
  modify fun s => s.complainOf s.previous complaint

/-- Complains about the token to read next. -/
def complainHere (complaint : Complaint) : Compiling Unit :=
  modify fun s => s.complainOf s.current complaint

/-! ## Faults -/

/-- Notes a fault. -/
def fail (fault : Fault) : Compiling Unit :=
  modify fun s => { s with fault := s.fault.or (some fault) }

/-! ## Moving on -/

/-- Makes the next proper token the one to read next, complaining of text that is no token on the
way.  There is always one, as the last token is the end of the source. -/
def State.settle (s : State) : List Token → State
  | [] => s
  | t :: ts =>
    match t.kind with
    | .malformed fault => ({ s with rest := ts }.complainOf t (.lexical fault)).settle ts
    | _ => { s with current := t, rest := ts }

/-- Reads a token. -/
def advance : Compiling Unit :=
  modify fun s =>
    let rest := s.rest
    { s with previous := s.current }.settle rest

/-- Is the next token of this kind? -/
def check (kind : TokenKind) : Compiling Bool := do return (← get).current.kind = kind

/-- Reads the next token if it is of this kind, and tells whether it was. -/
def accept (kind : TokenKind) : Compiling Bool := do
  if ← check kind then
    advance
    return true
  else
    return false

/-- Reads the next token, which should be of this kind; complains and reads nothing if it is not. -/
def expect (kind : TokenKind) (what : String) : Compiling Unit := do
  if ← check kind then advance
  else complainHere (.expected what)

/-- Does the compilation stand before the end of a block? -/
def atBlockEnd : Compiling Bool := do
  let kind := (← get).current.kind
  return kind = .rightBrace || kind = .endOfInput

/-- May a statement start with this token?  Reading goes on there after an error. -/
def startsStatement : TokenKind → Bool
  | .kwClass | .kwFun | .kwVar | .kwFor | .kwIf | .kwWhile | .kwPrint | .kwReturn => true
  | _ => false

/-- Reads on until a statement has just ended or the next one is about to start. -/
def skipToStatement : Nat → Compiling Unit
  | 0 => fail .endless
  | fuel + 1 => do
    let s ← get
    unless s.current.kind = .endOfInput || s.previous.kind = .semicolon ||
        startsStatement s.current.kind do
      advance
      skipToStatement fuel

/-- Stops panicking, at the end of the statement. -/
def synchronize : Compiling Unit := do
  modify fun s => { s with panicking := false }
  skipToStatement (← get).budget

/-! ## Emitting -/

/-- Changes the innermost body. -/
@[inline] def modifyBody (f : Body → Body) : Compiling Unit :=
  modify fun s => { s with body := f s.body }

/-- Adds an instruction, which belongs to the line of the token last read. -/
def emit (i : Instr) : Compiling Unit :=
  modify fun s => { s with body := s.body.emit i s.previous.line }

/-- Where a jump is waiting for its distance. -/
structure JumpSite where
  /-- The index of the jump among the instructions. -/
  index : Nat
  /-- The offset of the byte after the jump. -/
  start : Nat
  deriving DecidableEq, Repr

/-- Adds a jump whose distance is not known yet. -/
def emitJump (jump : UInt16 → Instr) : Compiling JumpSite := do
  let index := (← get).body.code.size
  emit (jump 0xffff)
  return ⟨index, (← get).body.size⟩

/-- Makes a jump lead to the end of the code so far. -/
def land (site : JumpSite) : Compiling Unit := do
  let size := (← get).body.size
  if size < site.start then fail .jumpFromBeyond
  let distance := size - site.start
  if maxDistance < distance then complain .jumpTooLong
  modifyBody (·.aimJump site.index (UInt16.ofNat distance))

/-- Adds a jump back to an offset. -/
def emitLoop (start : Nat) : Compiling Unit := do
  let size := (← get).body.size
  if size + 1 < start then fail .loopToBeyond
  let distance := size + 3 - start
  if maxDistance < distance then complain .loopTooLong
  emit (.loop (UInt16.ofNat distance))

/-- The index of a constant, added to the pool unless the same one is there. -/
def makeConstant (c : Constant) : Compiling UInt8 := do
  let body := (← get).body
  match body.findConstant? c with
  | some index => return UInt8.ofNat index
  | none =>
    let index := body.constants.size
    modifyBody (·.addConstant c)
    if maxOperands ≤ index then
      complain .tooManyConstants
      return 0
    else
      return UInt8.ofNat index

/-- The string object of a content. -/
def internString (content : String) : Compiling StringObject :=
  modifyGet fun s =>
    let (object, strings) := s.strings.intern content
    (object, { s with strings })

/-- The index of a string constant. -/
def stringConstant (content : String) : Compiling UInt8 := do
  makeConstant (.string (← internString content))

/-- Adds an instruction that pushes a constant. -/
def emitConstant (c : Constant) : Compiling Unit := do
  emit (.constant (← makeConstant c))

/-- Adds the instructions that leave a function without a value of its own: an initializer gives
back the receiver. -/
def emitReturn : Compiling Unit := do
  if (← get).body.kind = .initializer then emit (.getLocal 0) else emit .pushNil
  emit .ret

/-! ## Scopes and bodies -/

/-- Opens a scope. -/
def beginScope : Compiling Unit := modifyBody fun b => { b with depth := b.depth + 1 }

/-- Closes a scope and takes its variables off the stack; captured ones live on in their cells. -/
def endScope : Compiling Unit := do
  let leaving := (← get).body.scopeLocals
  modifyBody (·.leaveScope)
  leaving.forM fun v => emit (if v.isCaptured then .closeUpvalue else .pop)

/-- Opens a function body. -/
def openBody (kind : BodyKind) (name : String) : Compiling Unit :=
  modify fun s => { s with body := .start kind name, enclosing := s.body :: s.enclosing }

/-- Takes the innermost body away: its function, and the captures a closure of it needs. -/
def takeBody : Compiling (Prototype × List Capture) :=
  modifyGet fun s =>
    let prototype := s.body.assemble s.serial
    let captures := s.body.captures.toList
    let finished := if s.diagnostics.isEmpty then s.finished.push prototype else s.finished
    let s := { s with serial := s.serial + 1, finished }
    let s := match s.enclosing with
      | [] => s
      | around :: further => { s with body := around, enclosing := further }
    ((prototype, captures), s)

/-- Finishes the innermost body. -/
def closeBody : Compiling (Prototype × List Capture) := do
  emitReturn
  takeBody

/-- Finishes the innermost body as a function inside the body around it. -/
def closeFunction : Compiling (Prototype × List Capture) := do
  if (← get).enclosing.isEmpty then fail .noBodyAround
  closeBody

end Lox.Compile
