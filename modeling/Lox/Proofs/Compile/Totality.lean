import Lox.Proofs.Compile.Balance
import Lox.Proofs.Compile.Plans

/-!
# Compilation is total

Compiling a source comes to the end of its tokens, whatever they are, and nothing fails on the way
(`script_total`).  All bodies, classes and scopes that were opened have been closed again then, as
they have after every single declaration, and the depth of nesting is the same as before it.
-/

namespace Lox.Compile

/-- Only the body of the script is open, outside of all scopes. -/
structure State.Unwound (s : State) : Prop where
  kind : s.body.kind = .script
  depth : s.body.depth = 0
  enclosing : s.enclosing = []
  classes : s.classes = []

/-- The first token of a source has the others ahead. -/
lemma fed_start (source : String) (strings : StringTable) (serial : Nat) :
    (advance (State.start (Token.scan source) strings serial)).2.Fed := by
  obtain ⟨ts, last, all, ends, others, spelled⟩ := Token.scan_spec source
  let start := State.start (Token.scan source) strings serial
  have rest : start.rest = ts ++ [last] := all
  obtain ⟨terminated, ahead, previous, budget⟩ :=
    State.settle_spec start.rest { start with previous := start.current }
      (rest ▸ terminated_concat ends others) (rest ▸ spelled)
  have more : start.rest ≠ [] := by
    rw [rest]
    exact List.append_ne_nil_of_right_ne_nil _ (List.cons_ne_nil _ _)
  have less := length_advance more
  refine ⟨?_, ahead, terminated, ?_⟩
  · show (State.settle _ _).previous.Spelled
    rw [previous]
    exact ⟨fun name => (nomatch name), fun this => (nomatch this), fun string => (nomatch string)⟩
  · show _ < (State.settle _ _).budget
    rw [budget]
    exact less

/-- After the end of the source nothing is read. -/
lemma State.Exhausted.later {s s' : State} (h : s.Exhausted) (onward : Onward s s') :
    s'.Exhausted := by
  rcases onward.place with less | ⟨rest, current⟩
  · rw [h.rest] at less
    exact absurd less (Nat.not_lt_zero _)
  · exact ⟨current ▸ h.current, rest.trans h.rest⟩

/-- A state in which only the script is open stays one. -/
lemma State.Unwound.later {s s' : State} (h : s.Unwound) (balanced : Balanced 0 s s') :
    s'.Unwound where
  kind := balanced.kind.trans h.kind
  depth := balanced.depth.trans h.depth
  enclosing := by
    have around := balanced.around
    rw [h.enclosing] at around
    exact List.map_eq_nil_iff.1 around
  classes := balanced.classes.trans h.classes

/-- The end of the script leaves its body open. -/
lemma closeBody_script {b r : Nat} {s : State} (h : s.Unwound) : Step 0 b r s (closeBody s).2 := by
  have returns := steady (k := 0) (b := b) (r := r) emitReturn s
  have none := (h.later returns.toBalanced).enclosing
  refine returns.andThen ?_
  show Step 0 b r _ (takeBody (emitReturn s).2).2
  unfold takeBody
  simp only [modifyGet, MonadStateOf.modifyGet, StateT.modifyGet, none]
  exact .ofOnward (Course.same {}) rfl none.symm rfl rfl

/-- Whatever the tokens are, they are read to the end, everything is closed again, and nothing
fails. -/
lemma script_ends {start : State} (fed : (advance start).2.Fed) (unwound : start.Unwound)
    (faultless : start.fault = none) :
    (script start).2.fault = none ∧ (script start).2.Exhausted ∧ (script start).2.Unwound := by
  have final : (script start).2 =
      (closeBody (program (level maxNesting) (advance start).2.budget (advance start).2).2).2 := rfl
  have unwound₁ := unwound.later (steady (b := 0) (r := 0) advance start).toBalanced
  have faultless₁ : (advance start).2.fault = none :=
    (State.step_settle start.rest { start with previous := start.current }).2.2.2.trans faultless
  generalize (advance start).2 = s at fed final unwound₁ faultless₁
  have reads := (steady_program (b := 0) (level maxNesting) s.budget).step s
  have exhausted := program_exhausts (level maxNesting) s.budget s fed fed.budget
  have closes := closeBody_script (b := 0) (r := s.budget) (unwound₁.later reads.toBalanced)
  have whole := reads.andThen closes
  rw [final]
  exact ⟨whole.faultless fed (Nat.zero_le _) fed.budget faultless₁, exhausted.later closes.onward,
    unwound₁.later whole.toBalanced⟩

/-- This holds of the tokens of every source. -/
lemma script_finishes (source : String) (strings : StringTable) (serial : Nat) :
    let s := (script (State.start (Token.scan source) strings serial)).2
    s.fault = none ∧ s.Exhausted ∧ s.Unwound :=
  script_ends (fed_start source strings serial) ⟨rfl, rfl, rfl, rfl⟩ rfl

end Lox.Compile

namespace Lox

open Compile

/-- Compiling a source ends at the end of its tokens, with a function if and only if there is
nothing to complain of, and with everything closed again that was opened; nothing fails on the way.
A declaration by itself leaves the bodies, the classes and the scopes that are open as they are, and
the depth of nesting, whatever that is; it fails no more than the whole, and before the end of the
source it reads at least one token.

Faults are noted where an operation may have no result.  Others cannot have one for what they are
given: the slot of a variable that is found is below their number, and an operator or a word for a
value is one of those that have instructions. -/
theorem compile_total (source : String) (strings : StringTable) (serial : Nat) :
    let s := (script (State.start (Token.scan source) strings serial)).2
    ((compile source strings serial).fault = none ∧ s.Exhausted ∧ s.Unwound ∧
      ((∃ p, (compile source strings serial).outcome = .ok p) ↔ s.diagnostics = #[])) ∧
    (∀ (n : Nat) (t : State), Balanced 0 t (declaration (level n) t).2 ∧
      (∀ around : List (Plan Unit), around.length + n = maxNesting →
        Reading.LeadsInside around ⟨t, Planned.plan declaration, around⟩
          ⟨(declaration (level n) t).2, .done (), around⟩) ∧
      (t.Fed → t.fault = none → (declaration (level n) t).2.fault = none) ∧
      (t.Fed → t.current.kind ≠ .endOfInput →
        (declaration (level n) t).2.rest.length < t.rest.length)) ∧
    (∀ name vs slot v, findLocal? name vs = some (slot, v) →
      (UInt8.ofNat slot).toNat < vs.length) ∧
    (∀ kind i, leading? kind = some (.unary i) → kind ∈ [.bang, .minus]) ∧
    (∀ kind i, leading? kind = some (.literal i) → kind ∈ [.kwFalse, .kwTrue, .kwNil]) ∧
    ∀ kind p is, trailing? kind = some (p, .binary is) →
      kind ∈ [.bangEqual, .equalEqual, .greater, .greaterEqual, .less, .lessEqual, .plus, .minus,
        .star, .slash] := by
  obtain ⟨fault, exhausted, unwound⟩ := script_finishes source strings serial
  refine ⟨⟨fault, exhausted, unwound, ?_⟩,
    fun n t => ⟨?_, fun around left => Planned.leads declaration left t, ?_, ?_⟩, ?_, ?_, ?_, ?_⟩
  · unfold compile StateT.run
    generalize script (State.start (Token.scan source) strings serial) = result
    obtain ⟨p, s⟩ := result
    by_cases quiet : s.diagnostics = #[] <;> simp [quiet]
  · exact (steady (k := 0) (b := 0) (r := 0) (declaration (level n)) t).toBalanced
  · have step := steady (k := 0) (b := 0) (r := t.rest.length + 1) (declaration (level n)) t
    exact fun fed => step.faultless fed (Nat.zero_le _) (Nat.lt_succ_self _)
  · exact reads_on (declaration (level n))
  · intro name vs slot v found
    rw [UInt8.toNat_ofNat']
    exact Nat.lt_of_le_of_lt (Nat.mod_le _ _) (findLocal?_lt found)
  · intro kind i word
    cases kind <;> simp [leading?] at word ⊢
  · intro kind i word
    cases kind <;> simp [leading?] at word ⊢
  · intro kind p is word
    cases kind <;> simp [trailing?] at word ⊢

/-- A class that breaks off in a method, after a superclass that is none. -/
theorem compile_total_broken :
    ((compile "class A < 1 \x7b m(a b) return \"" .empty 0).fault = none ∧
      ¬∃ p, (compile "class A < 1 \x7b m(a b) return \"" .empty 0).outcome = .ok p) ∧
    ∃ t : State, (t.Fed ∧ t.fault = none ∧ t.current.kind ≠ .endOfInput) ∧
      (declaration (level maxNesting) t).2.fault = none ∧
      (declaration (level maxNesting) t).2.rest.length < t.rest.length ∧
      Reading.LeadsInside [] ⟨t, Planned.plan declaration, []⟩ ⟨(declaration (level maxNesting) t).2, .done (),
        []⟩ := by
  let source := "class A < 1 \x7b m(a b) return \""
  obtain ⟨⟨fault, -, -, ok⟩, declarations, -⟩ := compile_total source .empty 0
  have fed := fed_start source .empty 0
  have calm : (advance (State.start (Token.scan source) .empty 0)).2.fault = none := by
    decide +kernel
  have before :
      (advance (State.start (Token.scan source) .empty 0)).2.current.kind ≠ .endOfInput := by
    decide +kernel
  obtain ⟨-, leads, faultless, reads⟩ := declarations maxNesting _
  refine ⟨⟨fault, fun compiles => ?_⟩, _, ⟨fed, calm, before⟩, faultless fed calm, reads fed before, leads [] rfl⟩
  have complained :
      (script (State.start (Token.scan source) .empty 0)).2.diagnostics.isEmpty = false := by
    decide +kernel
  rw [ok.1 compiles] at complained
  exact absurd complained (by decide)

end Lox
