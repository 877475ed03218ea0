import Lox.Text.Quoted
import Lox.Value

/-!
# Inspecting values

The text of a value for those who look for errors: it shows of which sort a value is, gives numbers
a fraction, and strings quotes.
-/

namespace Lox

/-- The name of the sort of an object; other values have none. -/
def Value.objectKind? : Value → Option String
  | .nil | .bool _ | .number _ => none
  | .string _ => some "ObjString"
  | .prototype _ => some "ObjFunction"
  | .native _ => some "ObjNativeFunction"
  | .closure _ => some "ObjClosure"
  | .cls _ => some "ObjClass"
  | .inst _ _ => some "ObjInstance"
  | .bound _ _ _ => some "ObjBoundMethod"

/-- The text of a value for inspection. -/
def Value.inspect (v : Value) : String :=
  match v with
  | .nil => "Nil"
  | .bool b => "Bool(" ++ (if b then "true" else "false") ++ ")"
  | .number x => "Number(" ++ Decimal.Style.exact.write x ++ ")"
  | .string s => "Object(" ++ Text.quote s.content ++ ")"
  | object => "Object(" ++ object.objectKind?.getD "" ++ "(" ++ object.display ++ "))"

/-- The text of a function of the host for inspection. -/
def NativeRef.inspect (f : NativeRef) : String :=
  "ObjectNativeFunction \x7b name: " ++ Text.quote f.name ++ ", arity: " ++
    toString f.arity.toNat ++ " \x7d"

end Lox
