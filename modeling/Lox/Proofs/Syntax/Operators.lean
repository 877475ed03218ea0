import Lox.Compile.Operator
import Mathlib.Tactic.Lemma

/-!
# Operators

The operators of the language and the words for values, each with the instructions that it stands for: an
operator takes the values of its operands off the stack and leaves its own there.  `binding?` says how tightly
each word binds that goes on after an operand.

The compiler looks tokens up in two tables of its own, which tell it what to do next where an operand is due
(`leading?`) and after one (`trailing?`).  On operators and words for values they say the same as the lists here.
-/

namespace Lox.Syntax

open Compile

variable {kind op : TokenKind} {p : Precedence} {i : Instr} {is : List Instr}

/-- The words for values. -/
def value? : TokenKind → Option Instr
  | .kwNil => some .pushNil
  | .kwTrue => some .pushTrue
  | .kwFalse => some .pushFalse
  | _ => none

/-- The operators before one operand. -/
def unary? : TokenKind → Option Instr
  | .bang => some .not
  | .minus => some .negate
  | _ => none

/-- The operators between two operands, and how tightly they bind.  There are no instructions for the mixed
comparisons, which negate the opposite strict ones, and none for the negated equality. -/
def binary? : TokenKind → Option (Precedence × List Instr)
  | .equalEqual => some (.equality, [.equal])
  | .bangEqual => some (.equality, [.equal, .not])
  | .less => some (.comparison, [.less])
  | .lessEqual => some (.comparison, [.greater, .not])
  | .greater => some (.comparison, [.greater])
  | .greaterEqual => some (.comparison, [.less, .not])
  | .plus => some (.term, [.add])
  | .minus => some (.term, [.subtract])
  | .star => some (.factor, [.multiply])
  | .slash => some (.factor, [.divide])
  | _ => none

/-- How tightly a word binds that goes on after an operand. -/
def binding? : TokenKind → Option Precedence
  | .kwOr => some .or
  | .kwAnd => some .and
  | .leftParen | .dot => some .call
  | op => (binary? op).map (·.1)

/-- A word for a value is no operator. -/
lemma unary?_of_value (word : value? kind = some i) : unary? kind = none := by
  cases kind <;> cases word <;> rfl

lemma binding?_binary (word : binary? op = some (p, is)) : binding? op = some p := by
  cases op <;> cases word <;> rfl

/-! ## The tables of the compiler -/

lemma leading?_value : leading? kind = some (.literal i) ↔ value? kind = some i := by
  cases kind <;> simp [leading?, value?]

lemma leading?_unary : leading? op = some (.unary i) ↔ unary? op = some i := by
  cases op <;> simp [leading?, unary?]

lemma trailing?_binary : trailing? op = some (p, .binary is) ↔ binary? op = some (p, is) := by
  cases op <;> simp [trailing?, binary?]

lemma trailing?_binding (kind : TokenKind) : (trailing? kind).map (·.1) = binding? kind := by
  cases kind <;> rfl

lemma binding?_of_trailing {t : Trailing} (word : trailing? kind = some (p, t)) : binding? kind = some p := by
  rw [← trailing?_binding, word]
  rfl

/-! ## How tightly operators bind -/

lemma binding_bounds (word : binding? kind = some p) : .or ≤ p ∧ p ≤ .call := by
  cases kind <;> cases word <;> decide

/-- An operator between two operands binds less tightly than one before an operand. -/
lemma binary_loose (word : binary? op = some (p, is)) : p ≤ .factor := by
  cases op <;> cases word <;> decide

end Lox.Syntax
