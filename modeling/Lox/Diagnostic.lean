import Lox.Token

/-!
# Diagnostics

What can be wrong with a program before it runs.  A `Complaint` is a cause; a `Diagnostic` is a
complaint about a token, from which the line, the location and the text of the report follow.
-/

namespace Lox

/-- Why a program is refused. -/
inductive Complaint where
  | lexical (fault : LexicalFault)
  /-- Something else should stand here. -/
  | expected (what : String)
  | invalidAssignment
  | redeclared
  | ownInitializer
  | returnFromScript
  | valueFromInitializer
  | inheritsItself
  | thisOutsideClass
  | superOutsideClass
  | superWithoutSuperclass
  | tooDeep
  | tooManyLocals
  | tooManyCaptures
  | tooManyConstants
  | tooManyParameters
  | tooManyArguments
  | jumpTooLong
  | loopTooLong
  deriving DecidableEq, Repr

/-- The words of a complaint. -/
def Complaint.message : Complaint → String
  | .lexical fault => fault.message
  | .expected what => "Expect " ++ what ++ "."
  | .invalidAssignment => "Invalid assignment target."
  | .redeclared => "Already a variable with this name in this scope."
  | .ownInitializer => "Can't read local variable in its own initializer."
  | .returnFromScript => "Can't return from top-level code."
  | .valueFromInitializer => "Can't return a value from an initializer."
  | .inheritsItself => "A class can't inherit from itself."
  | .thisOutsideClass => "Can't use 'this' outside of a class."
  | .superOutsideClass => "Can't use 'super' outside of a class."
  | .superWithoutSuperclass => "Can't use 'super' in a class with no superclass."
  | .tooDeep => "Too much nesting."
  | .tooManyLocals => "Too many local variables in function."
  | .tooManyCaptures => "Too many closure variables in function."
  | .tooManyConstants => "Too many constants in one chunk."
  | .tooManyParameters => "Can't have more than 255 parameters."
  | .tooManyArguments => "Can't have more than 255 arguments."
  | .jumpTooLong => "Too much code to jump over."
  | .loopTooLong => "Loop body too large."

/-- The report of an error: where, in words, and what. -/
def reportText (line : Nat) (location message : String) : String :=
  "[line " ++ toString line ++ "] Error" ++ location ++ ": " ++ message

/-- A complaint about a token. -/
structure Diagnostic where
  token : Token
  complaint : Complaint
  deriving DecidableEq, Repr

namespace Diagnostic

/-- The line of the token. -/
def line (d : Diagnostic) : Nat := d.token.line

/-- Where the token is, in words; nothing for text that is no token. -/
def location (d : Diagnostic) : String :=
  match d.token.kind with
  | .endOfInput => " at end"
  | .malformed _ => ""
  | _ => " at '" ++ d.token.lexeme ++ "'"

/-- What is wrong. -/
def message (d : Diagnostic) : String := d.complaint.message

/-- The report. -/
def text (d : Diagnostic) : String := reportText d.line d.location d.message

end Diagnostic

end Lox
