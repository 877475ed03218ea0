import Lox.Session

/-!
# The command line

The program runs a script from a file, or reads lines and runs each of them in one session.
`parseArguments` says what is asked for, and `System.run` does it, on any system that can read files
and bytes, write, and run sources.  On the system `recorder` a run of the program is only recorded:
`runFile` and `transcript` tell what is written there, piece by piece, and with which exit code the
program ends.
-/

namespace Lox.CommandLine

/-! ## What is asked for -/

/-- What the arguments ask for. -/
structure Request where
  /-- The script to run; without one, lines are read. -/
  script? : Option String
  /-- How often more words are asked for. -/
  verbose : Nat
  deriving DecidableEq, Repr

/-- How closely to watch when asked `n` times. -/
def verbosity (n : Nat) : Verbosity :=
  match n with
  | 0 => .quiet
  | 1 => .debug
  | _ => .trace

/-- Is it a dash with one or more letters `v`? -/
def isShortFlag (argument : String) : Bool :=
  match argument.toList with
  | '-' :: v :: vs => (v :: vs).all (· == 'v')
  | _ => false

/-- Adds the arguments to a request; `flags` tells whether flags are still possible.  There is no
request if an argument is not understood. -/
def addArguments : Bool → List String → Request → Option Request
  | _, [], request => some request
  | flags, argument :: rest, request =>
    if flags && argument == "--" then addArguments false rest request
    else if flags && argument == "--verbose" then
      addArguments flags rest { request with verbose := request.verbose + 1 }
    else if flags && isShortFlag argument then
      addArguments flags rest { request with verbose := request.verbose + (argument.length - 1) }
    else if flags && argument.startsWith "-" && argument != "-" then none
    else if request.script?.isSome then none
    else addArguments flags rest { request with script? := some argument }

/-- What the arguments ask for. -/
def parseArguments (arguments : List String) : Option Request :=
  addArguments true arguments ⟨none, 0⟩

/-! ## What is written -/

/-- A piece of text for one of the two streams. -/
inductive Piece where
  | out (text : String)
  | err (text : String)
  deriving DecidableEq, Repr

/-- The piece for an event. -/
def pieceOf : Event → Piece
  | .printed line => .out (line ++ "\n")
  | .reported line => .err (line ++ "\n")
  | .recorded level text => .err ("[" ++ level.name ++ "] " ++ text ++ "\n")

/-- Takes the journal of a session as pieces. -/
def takePieces (s : Session) : List Piece × Session :=
  let (events, s) := s.takeJournal
  ((events.toList.map pieceOf), s)

/-- What is written to standard output. -/
def outText (pieces : List Piece) : String :=
  String.join (pieces.filterMap fun | .out text => some text | .err _ => none)

/-- What is written to standard error. -/
def errText (pieces : List Piece) : String :=
  String.join (pieces.filterMap fun | .err text => some text | .out _ => none)

/-! ## Scripts -/

/-- Why a file cannot be read. -/
inductive FileError where
  | missing
  | directory
  | notText
  | other (message : String)
  deriving DecidableEq, Repr

/-- The words for text that is not encoded as UTF-8. -/
def notTextMessage : String := "stream did not contain valid UTF-8"

/-- The words for a file that cannot be read. -/
def FileError.message : FileError → String
  | .missing => "No such file or directory (os error 2)"
  | .directory => "Is a directory (os error 21)"
  | .notText => notTextMessage
  | .other message => message

/-- The text of some bytes. -/
def decode? (bytes : ByteArray) : Option String := String.fromUTF8? bytes

/-- The text of a file. -/
def fileText (content : Except FileError ByteArray) : Except FileError String := do
  match decode? (← content) with
  | some text => return text
  | none => throw .notText

/-- The exit code of a program that cannot read its script. -/
def unreadableCode : UInt8 := 74

/-- What is told of a script that cannot be read. -/
def unreadableReport (path : String) (error : FileError) : Piece :=
  .err ("Could not read file \"" ++ path ++ "\": " ++ error.message ++ "\n")

/-- The exit code of a program that has run a script. -/
def exitCode : Outcome → UInt8
  | .ok => 0
  | .compileError => 65
  | .runtimeError => 70
  | .defect _ => 70

/-! ## Lines -/

/-- What is written before a line is read. -/
def promptPiece : Piece := .out "> "

/-- What is written at the end of the input. -/
def farewell : Piece := .out "\n"

/-- What is written when a line is no text. -/
def unreadableLine : Piece := .err ("Error reading line: " ++ notTextMessage ++ "\n")

/-- The byte that ends a line. -/
def newline : UInt8 := 10

/-- The text of a line. -/
def lineText? (line : Array UInt8) : Option String := decode? ⟨line⟩

/-! ## The program -/

/-- What the program needs of the system it runs on. -/
structure System (m : Type → Type) where
  /-- Reads the bytes of a file. -/
  readFile : String → m (Except FileError ByteArray)
  /-- Reads a byte of the input, if there is one left. -/
  readByte : m (Option UInt8)
  /-- Writes a piece. -/
  write : Piece → m Unit
  /-- Runs a source in a session and writes what the session tells. -/
  interpret : Session → String → m (Outcome × Session)

/-- Writes what a session has told. -/
def writeTold {m : Type → Type} [Monad m] (write : Piece → m Unit) (s : Session) : m Session := do
  let (pieces, s) := takePieces s
  pieces.forM write
  return s

/-- What is written when the arguments are not understood. -/
def usage : Piece := .err "usage: lox [-v]... [SCRIPT]\n"

namespace System

variable {m : Type → Type} [Monad m] (system : System m)

/-- A new session, and what it tells is written. -/
def start (verbosity : Verbosity) : m Session := writeTold system.write (.start verbosity)

/-- Runs the script at a path; the result is the exit code. -/
def runScript (verbosity : Verbosity) (path : String) : m UInt8 := do
  match fileText (← system.readFile path) with
  | .error error =>
    system.write (unreadableReport path error)
    return unreadableCode
  | .ok source =>
    let (outcome, _) ← system.interpret (← system.start verbosity) source
    return exitCode outcome

/-- Reads a byte of a line and adds it to those in `line`; the line ends with a newline or at the
end of the input. -/
def extendLine (line : Array UInt8) : m (Array UInt8 ⊕ Array UInt8) := do
  match ← system.readByte with
  | none => return .inr line
  | some byte => return if byte = newline then .inr (line.push byte) else .inl (line.push byte)

/-- Reads a line.  There is no line left if it has no bytes. -/
def readLine : m (Array UInt8) := repeatM system.extendLine #[]

/-- Reads a line and runs it.  At the end of the input and at a line that is no text there is an exit
code instead of the session. -/
def answerLine (s : Session) : m (Session ⊕ UInt8) := do
  system.write promptPiece
  let line ← system.readLine
  if line.isEmpty then
    system.write farewell
    return .inr 0
  match lineText? line with
  | none =>
    system.write unreadableLine
    return .inr 0
  | some source =>
    let (_, s) ← system.interpret s source
    return .inl s

/-- Reads lines and runs them in one session; the result is the exit code. -/
def runLines (verbosity : Verbosity) : m UInt8 := do
  repeatM system.answerLine (← system.start verbosity)

/-- Runs what the arguments ask for; the result is the exit code. -/
def run (arguments : List String) : m UInt8 := do
  match parseArguments arguments with
  | none =>
    system.write usage
    return 2
  | some request =>
    match request.script? with
    | some path => system.runScript (verbosity request.verbose) path
    | none => system.runLines (verbosity request.verbose)

end System

/-! ## Recorded runs -/

/-- How far a recorded run has come. -/
structure Scene where
  /-- The bytes that are not read yet. -/
  input : List UInt8
  written : Array Piece
  deriving Inhabited, Repr

/-- A system whose clock stands still, where each source may take `fuel` steps.  There is no result if
one takes more. -/
def recorder (fuel : Nat) (files : String → Except FileError ByteArray) :
    System (StateT Scene Option) where
  readFile path := return files path
  readByte scene :=
    match scene.input with
    | [] => some (none, scene)
    | byte :: input => some (some byte, { scene with input })
  write := note
  interpret s source := do
    match s.interpret fuel source with
    | (some outcome, s) => return (outcome, ← writeTold note s)
    | (none, _) => failure
where
  /-- Adds a piece to those written. -/
  note (piece : Piece) : StateT Scene Option Unit := modify fun scene =>
    { scene with written := scene.written.push piece }

/-- What a program writes, and its exit code. -/
def record (program : StateT Scene Option UInt8) (input : List UInt8) : Option (List Piece × UInt8) :=
  (program.run ⟨input, #[]⟩).map fun (code, scene) => (scene.written.toList, code)

/-- Runs the script at a path: what is written, and the exit code, unless the script takes more
than `fuel` steps. -/
def runFile (verbosity : Verbosity) (fuel : Nat) (path : String)
    (content : Except FileError ByteArray) : Option (List Piece × UInt8) :=
  record ((recorder fuel fun _ => content).runScript verbosity path) []

/-- What is written in answer to the lines of an input, unless a line takes more than `fuel`
steps. -/
def transcript (verbosity : Verbosity) (fuel : Nat) (input : List UInt8) : Option (List Piece) :=
  (record ((recorder fuel fun _ => .error .missing).runLines verbosity) input).map Prod.fst

end Lox.CommandLine
