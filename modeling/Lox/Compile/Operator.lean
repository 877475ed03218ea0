import Lox.Instr
import Lox.Token

/-!
# Operators

How tightly operators bind, and what a token means at the start of an expression (`leading?`) and
after an operand (`trailing?`).  The instructions of an operator are part of its entry.
-/

namespace Lox.Compile

/-- How tightly an operator binds, from the loosest to the tightest. -/
inductive Precedence where
  | assignment | or | and | equality | comparison | term | factor | unary | call | primary
  deriving DecidableEq, Repr

namespace Precedence

/-- The place in the order from loose to tight. -/
def rank (p : Precedence) : Nat := p.ctorIdx

instance : LE Precedence := ⟨fun p q => p.rank ≤ q.rank⟩

instance (p q : Precedence) : Decidable (p ≤ q) := inferInstanceAs (Decidable (p.rank ≤ q.rank))

/-- The next tighter precedence; nothing binds tighter than a primary expression. -/
def next : Precedence → Precedence
  | .assignment => .or
  | .or => .and
  | .and => .equality
  | .equality => .comparison
  | .comparison => .term
  | .term => .factor
  | .factor => .unary
  | .unary => .call
  | .call | .primary => .primary

end Precedence

/-- What a token starts at the beginning of an expression. -/
inductive Leading where
  | grouping
  /-- An operator before its operand. -/
  | unary (i : Instr)
  | number
  | string
  /-- A word for a value. -/
  | literal (i : Instr)
  | name
  | this
  | super
  deriving DecidableEq, Repr

/-- What a token continues after an operand. -/
inductive Trailing where
  | call
  | property
  /-- An operator between two operands. -/
  | binary (is : List Instr)
  | and
  | or
  deriving DecidableEq, Repr

/-- What a token starts, if an expression can start with it. -/
def leading? : TokenKind → Option Leading
  | .leftParen => some .grouping
  | .minus => some (.unary .negate)
  | .bang => some (.unary .not)
  | .identifier => some .name
  | .string => some .string
  | .number => some .number
  | .kwFalse => some (.literal .pushFalse)
  | .kwTrue => some (.literal .pushTrue)
  | .kwNil => some (.literal .pushNil)
  | .kwSuper => some .super
  | .kwThis => some .this
  | _ => none

/-- What a token continues and how tightly, if an expression can go on with it.  The mixed
comparisons are negations of the strict ones. -/
def trailing? : TokenKind → Option (Precedence × Trailing)
  | .leftParen => some (.call, .call)
  | .dot => some (.call, .property)
  | .minus => some (.term, .binary [.subtract])
  | .plus => some (.term, .binary [.add])
  | .slash => some (.factor, .binary [.divide])
  | .star => some (.factor, .binary [.multiply])
  | .bangEqual => some (.equality, .binary [.equal, .not])
  | .equalEqual => some (.equality, .binary [.equal])
  | .greater => some (.comparison, .binary [.greater])
  | .greaterEqual => some (.comparison, .binary [.less, .not])
  | .less => some (.comparison, .binary [.less])
  | .lessEqual => some (.comparison, .binary [.greater, .not])
  | .kwAnd => some (.and, .and)
  | .kwOr => some (.or, .or)
  | _ => none

end Lox.Compile
