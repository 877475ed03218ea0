/-!
# Runtime errors

Why a running program is stopped, and in which words it is told.
-/

namespace Lox

/-- Why a running program is stopped. -/
inductive RuntimeError where
  | operandNotNumber
  | operandsNotNumbers
  | operandsNotAddable
  | undefinedVariable (name : String)
  | undefinedProperty (name : String)
  | propertyOfNoInstance
  | fieldOfNoInstance
  | methodOfNoInstance
  | arityMismatch (expected got : UInt8)
  | notCallable
  | stackOverflow
  | superclassNotClass
  /-- A function of the host has failed. -/
  | native (name message : String)
  deriving DecidableEq, Repr

/-- The words of an error. -/
def RuntimeError.message : RuntimeError → String
  | .operandNotNumber => "Operand must be a number."
  | .operandsNotNumbers => "Operands must be numbers."
  | .operandsNotAddable => "Operands must be two numbers or two strings."
  | .undefinedVariable name => "Undefined variable '" ++ name ++ "'."
  | .undefinedProperty name => "Undefined property '" ++ name ++ "'."
  | .propertyOfNoInstance => "Only instances have properties."
  | .fieldOfNoInstance => "Only instances have fields."
  | .methodOfNoInstance => "Only instances have methods."
  | .arityMismatch expected got =>
    "Expected " ++ toString expected.toNat ++ " arguments but got " ++ toString got.toNat ++ "."
  | .notCallable => "Can only call functions and classes."
  | .stackOverflow => "Stack overflow."
  | .superclassNotClass => "Superclass must be a class."
  | .native name message => "Native function " ++ name ++ " failed: " ++ message

end Lox
