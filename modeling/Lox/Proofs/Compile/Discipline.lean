import Lox.Proofs.Compile.Accesses

/-!
# The stack discipline of programs

The functions in a source that compiles all keep the stack discipline, with the items that its tree
has: so the variables in scope at an instruction, or between two statements, are those that the tree
puts in scope there.
-/

namespace Lox

open Compile Syntax

/-- Every function in a source that compiles is that of a function of the program, and keeps the
stack discipline with the items of its body. -/
theorem compile_disciplined {source : String} {strings : StringTable} {serial : Nat} {p : Prototype}
    (compiles : (compile source strings serial).outcome = .ok p) :
    ∃ ds, ReadsProgram ((Token.scan source).toList.map Token.word) ds ∧
      ∀ q, Contains p q → ∃ captures further f Γ start items stop,
        CodeOf p ds (captures :: further) q f ∧
          Implements further captures q f Γ start items stop ∧
          Disciplined q (items ++ under stop (returnCode Γ.kind)) := by
  obtain ⟨ds, reads, proper, script⟩ := compile_emits compiles
  refine ⟨ds, reads, fun q inside => ?_⟩
  obtain ⟨chain, f, code⟩ := CodeOf.script.contains script proper inside
  obtain ⟨captures, further, Γ, start, items, stop, rfl, implements⟩ :=
    code.implements script proper
  exact ⟨captures, further, f, Γ, start, items, stop, code, implements,
    implements.compiled.disciplined⟩

/-- A local function that mentions itself, a loop with a variable of its own, and a class whose
superclass is a local. -/
theorem compile_disciplined_locals :
    ∃ p, (compile
        "fun f(a) \x7b fun g() \x7b return g; \x7d for (var i = a; i and g;) print i; class A \x7b\x7d class B < A \x7b m() \x7b super.m(); \x7d \x7d \x7d"
        .empty 0).outcome = .ok p ∧
      ∀ q, Contains p q → ∃ items, Disciplined q items := by
  generalize result : (compile _ _ _).outcome = outcome
  have compiles : outcome.toOption.isSome = true := by
    rw [← result]
    decide +kernel
  cases outcome with
  | error _ => exact nomatch compiles
  | ok p =>
    obtain ⟨ds, -, functions⟩ := compile_disciplined result
    refine ⟨p, rfl, fun q inside => ?_⟩
    obtain ⟨_, _, _, _, _, _, _, -, -, disciplined⟩ := functions q inside
    exact ⟨_, disciplined⟩

end Lox
