import Lox.Main
import Lox.Inspect
import Lox.Proofs.Syntax.Scanning
import Lox.Proofs.Syntax.Grammar
import Lox.Proofs.Syntax.Unambiguity
import Lox.Proofs.Syntax.Derivation
import Lox.Proofs.Syntax.Canonical
import Lox.Proofs.Syntax.Parentheses
import Lox.Proofs.Bytecode.Layout
import Lox.Proofs.Decimal.LiteralEquality
import Lox.Proofs.Compile.Emission
import Lox.Proofs.Compile.Course
import Lox.Proofs.Compile.Reading
import Lox.Proofs.Compile.Balance
import Lox.Proofs.Compile.Totality
import Lox.Proofs.Compile.Order
import Lox.Proofs.Compile.Quiet
import Lox.Proofs.Compile.Invariant
import Lox.Proofs.Compile.Actions
import Lox.Proofs.Compile.Constants
import Lox.Proofs.Compile.Resolution
import Lox.Proofs.Compile.ExpressionCode
import Lox.Proofs.Compile.Scopes
import Lox.Proofs.Compile.Functions
import Lox.Proofs.Compile.Statements
import Lox.Proofs.Compile.Declarations
import Lox.Proofs.Compile.Programs
import Lox.Proofs.Compile.Acceptance
import Lox.Proofs.Syntax.Names
import Lox.Proofs.Bytecode.Block
import Lox.Proofs.Compile.Typing
import Lox.Proofs.Compile.Format
import Lox.Proofs.Compile.Heights
import Lox.Proofs.Syntax.Scoping
import Lox.Proofs.Compile.Accesses
import Lox.Proofs.Compile.Discipline
import Lox.Proofs.Machine.Evolution
import Lox.Proofs.Machine.Memory
import Lox.Proofs.Machine.Calls
import Lox.Proofs.Machine.Steps
import Lox.Proofs.Machine.Transfer
import Lox.Proofs.Session.Reach
import Lox.Proofs.Session.Quiescence
import Lox.Proofs.Session.Safety
import Lox.Proofs.Session.Captures
import Lox.Proofs.Compile.Building
import Lox.Proofs.Compile.Fusion
import Lox.Proofs.Compile.StatementFusion
import Lox.Proofs.Machine.Likeness
import Lox.Proofs.Machine.Lockstep
import Lox.Proofs.Compile.Twins
import Lox.Proofs.Session.Transcripts
import Lox.Proofs.Syntax.Lawful
import Lox.Proofs.Syntax.Limits
import Lox.Proofs.Compile.Decisions
import Lox.Proofs.Compile.Lawfulness
import Lox.Proofs.Compile.LawfulPrograms
import Lox.Proofs.Compile.PostOrder
import Lox.Proofs.Compile.Segments
import Lox.Proofs.Machine.Frames
import Lox.Proofs.Machine.Variables
import Lox.Proofs.Machine.Failures
import Lox.Proofs.Session.Returns
import Lox.Proofs.Session.Locals
import Lox.Proofs.Session.Atomicity
import Lox.Proofs.Session.Closing
import Lox.Proofs.Session.Sharing
import Lox.Proofs.Session.Invocation
import Lox.Proofs.Syntax.Coverage
import Lox.Proofs.Session.Inheritance
import Lox.Proofs.Compile.SlotZero
import Lox.Proofs.Compile.Loops
import Lox.Proofs.Machine.Keeping
import Lox.Proofs.Session.Receivers
import Lox.Proofs.Session.Construction
import Lox.Proofs.Machine.Disassembly
import Lox.Proofs.Compile.Tidiness
import Lox.Proofs.Compile.Upkeep
import Lox.Proofs.Compile.Operands
import Lox.Proofs.Compile.Pools
import Lox.Proofs.Machine.Strings
import Lox.Proofs.Session.Interning
import Lox.Proofs.Compile.Lines
import Lox.Proofs.Compile.Nameless
import Lox.Proofs.Compile.ScriptCode
import Lox.Proofs.Machine.Vacancy
import Lox.Proofs.Session.Scripts
import Lox.Proofs.Session.Provenance
import Lox.Proofs.Session.Turns
import Lox.Proofs.Session.Backtraces
import Lox.Proofs.Syntax.Lexemes
import Lox.Proofs.Syntax.Rescanning
import Lox.Proofs.Semantics.Evaluation
import Lox.Proofs.Syntax.Rendering
import Lox.Proofs.Session.Iterations
import Lox.Proofs.Semantics.Views
import Lox.Proofs.Semantics.Simulation
import Lox.Proofs.Semantics.Preservation
import Lox.Proofs.Semantics.Meaning
import Lox.Proofs.Semantics.Comparisons
import Lox.Proofs.Compile.Plans
import Lox.Proofs.Compile.Nesting
import Lox.Proofs.Syntax.Keywords
import Lox.Proofs.Decimal.Rounding
import Lox.Proofs.Decimal.ShortestDigits
import Lox.Proofs.Decimal.Ranks
import Lox.Proofs.Decimal.Notation
import Lox.Proofs.Semantics.Numerals
import Lox.Proofs.Machine.Telling
import Lox.Proofs.Session.Dialogue
