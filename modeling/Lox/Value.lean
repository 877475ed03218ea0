import Lox.Chunk

/-!
# Values

What a running program computes with.  Numbers, truth values and nil are what they are; all other
values are objects, which have an identity.  A value has the parts of its object that never change
in itself; what does change, the methods of a class and the fields of an instance, is kept by the
machine under the serial number of the object.
-/

namespace Lox

/-- A function together with the cells of the variables it captured. -/
structure Closure where
  /-- Tells the closure from all others. -/
  serial : Nat
  prototype : Prototype
  /-- The numbers of the captured cells. -/
  captured : Array Nat

/-- A class. -/
structure ClassRef where
  /-- Tells the class from all others. -/
  serial : Nat
  name : String
  deriving DecidableEq, Repr

/-- A function of the host. -/
structure NativeRef where
  /-- Tells the function from all others. -/
  serial : Nat
  name : String
  arity : UInt8
  deriving DecidableEq, Repr

/-- A value. -/
inductive Value where
  | nil
  | bool (b : Bool)
  | number (x : Float)
  | string (s : StringObject)
  | prototype (p : Prototype)
  | native (f : NativeRef)
  | closure (c : Closure)
  | cls (c : ClassRef)
  /-- An instance of a class. -/
  | inst (serial : Nat) (cls : ClassRef)
  /-- A method together with the value it was looked up on. -/
  | bound (serial : Nat) (receiver : Value) (method : Closure)

instance : Inhabited Value := ⟨.nil⟩

/-- The value of a constant. -/
def Constant.toValue : Constant → Value
  | .number x => .number x
  | .string s => .string s
  | .prototype p => .prototype p

namespace Value

/-- Nil and false count as false, all other values as true. -/
def isFalsey : Value → Bool
  | .nil | .bool false => true
  | _ => false

/-- The number that a value is, if it is one. -/
def number? : Value → Option Float
  | .number x => some x
  | _ => none

/-- Are two values equal?  Numbers are compared as numbers, strings by content and all other
objects by identity. -/
def same : Value → Value → Bool
  | .nil, .nil => true
  | .bool a, .bool b => a == b
  | .number x, .number y => x == y
  | .string s, .string t => s.content == t.content
  | .prototype p, .prototype q => p.serial == q.serial
  | .native f, .native g => f.serial == g.serial
  | .closure c, .closure d => c.serial == d.serial
  | .cls c, .cls d => c.serial == d.serial
  | .inst a _, .inst b _ => a == b
  | .bound a _ _, .bound b _ _ => a == b
  | _, _ => false

/-- How a value is printed. -/
def display : Value → String
  | .nil => "nil"
  | .bool b => if b then "true" else "false"
  | .number x => Decimal.Style.plain.write x
  | .string s => s.content
  | .prototype p => p.display
  | .native _ => "<native fn>"
  | .closure c => c.prototype.display
  | .cls c => c.name
  | .inst _ c => c.name ++ " instance"
  | .bound _ _ method => method.prototype.display

/-- The number of captured variables of a function, and otherwise zero. -/
def captureCount : Value → Nat
  | .prototype p => p.captureCount
  | _ => 0

instance : PoolEntry Value := ⟨same, display, captureCount⟩

end Value

end Lox
