import Lox.Proofs.Compile.Programs
import Lox.Proofs.Syntax.Derivation

/-!
# What is accepted

A source that compiles is a program of the grammar: all of its tokens are words, and they can be
derived from the nonterminal of programs.
-/

namespace Lox

open Compile Syntax

/-- The tokens of a source that reads as a program, up to the end of the source, are words that derive
one. -/
lemma derives_of_reads {source : String} {ds : Stmt .declarations}
    (reads : ReadsProgram ((Token.scan source).toList.map Token.word) ds) :
    ∃ ts last, (Token.scan source).toList = ts ++ [last] ∧ last.kind = .endOfInput ∧
      (∀ t ∈ ts, IsLexeme t.kind) ∧ Derives .program (ts.map Token.word) := by
  obtain ⟨rest, tree, ends⟩ := reads
  obtain ⟨ts, last, all, kind, others, -⟩ := Token.scan_spec source
  obtain ⟨used, split, derived⟩ := tree.derives
  have words := derived.isLexeme
  rw [all, List.map_append, List.map_singleton] at split
  -- The words that are left start with the only end of the source there is.
  have whole : ts.map Token.word = used := by
    rcases List.append_eq_append_iff.1 split with ⟨more, rfl, last_⟩ | ⟨more, first, rest_⟩
    · cases more with
      | nil => exact (List.append_nil _).symm
      | cons w more =>
        have end_ : w = last.word := (List.cons.inj last_).1.symm
        exact absurd (show w.kind = .endOfInput by rw [end_]; exact kind)
          (words w (List.mem_append_right _ List.mem_cons_self)).1
    · cases more with
      | nil => rw [first, List.append_nil]
      | cons w more =>
        rw [rest_] at ends
        have there : w ∈ ts.map Token.word := by
          rw [first]
          exact List.mem_append_right _ List.mem_cons_self
        obtain ⟨t, token, rfl⟩ := List.mem_map.1 there
        exact absurd (Option.some.inj ends) (others t token)
  refine ⟨ts, last, all, kind, fun t there => ?_, ?_⟩
  · exact words t.word (whole ▸ List.mem_map_of_mem there)
  · rw [whole]
    exact .program derived

/-- The tokens of a source that compiles, up to the end of the source, are words that derive a
program. -/
theorem compile_grammatical {source : String} {strings : StringTable} {serial : Nat} {p : Prototype}
    (compiles : (compile source strings serial).outcome = .ok p) :
    ∃ ts last, (Token.scan source).toList = ts ++ [last] ∧ last.kind = .endOfInput ∧
      (∀ t ∈ ts, IsLexeme t.kind) ∧ Derives .program (ts.map Token.word) := by
  obtain ⟨ds, reads, -, -⟩ := compile_emits compiles
  exact derives_of_reads reads

/-- Targets of assignments at several depths, and a loop without a condition. -/
theorem compile_grammatical_targets :
    ∃ p ts last, (compile
        "class A < B \x7b m() \x7b super.m(1)(2).x = -3 * this.y; \x7d \x7d for (var i = 0;; i = i + 1) if (i or nil) A().z = i; else print (i);"
        .empty 0).outcome = .ok p ∧ (Token.scan
        "class A < B \x7b m() \x7b super.m(1)(2).x = -3 * this.y; \x7d \x7d for (var i = 0;; i = i + 1) if (i or nil) A().z = i; else print (i);").toList
          = ts ++ [last] ∧ Derives .program (ts.map Token.word) := by
  generalize result : (compile _ _ _).outcome = outcome
  have compiles : outcome.toOption.isSome = true := by
    rw [← result]
    decide +kernel
  cases outcome with
  | error _ => cases compiles
  | ok p =>
    obtain ⟨ts, last, all, -, -, derived⟩ := compile_grammatical result
    exact ⟨p, ts, last, rfl, all, derived⟩

end Lox
