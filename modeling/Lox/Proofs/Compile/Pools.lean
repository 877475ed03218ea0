import Lox.Proofs.Compile.Operands
import Lox.Proofs.Compile.Upkeep
import Lox.Proofs.Syntax.Unambiguity

/-!
# Pools

The pool of a compiled function has no constant twice, its operands select the literals and names of the
function in the program, and it has room for all of them (`compile_pools`).  What a literal selects is the
value that its text denotes.

A pool only grows, also while complaints are held back; so a function that needs more constants than
fit is never accepted.
-/

namespace Lox

open Compile Syntax

/-! ## Accepted sources -/

/-- A source is accepted if nothing is complained of. -/
lemma compile_ok_iff {source : String} {strings : StringTable} {serial : Nat} {p : Prototype} :
    (compile source strings serial).outcome = .ok p ↔
      (compiled source strings serial).2.diagnostics.isEmpty = true ∧
        (compiled source strings serial).1 = p := by
  unfold compile compiled StateT.run
  generalize script (State.start (Token.scan source) strings serial) = result
  obtain ⟨q, s⟩ := result
  dsimp only
  split
  · next quiet => exact ⟨fun same => ⟨quiet, Except.ok.inj same⟩, fun ⟨_, same⟩ => congrArg _ same⟩
  · next found => exact ⟨nofun, fun ⟨quiet, _⟩ => absurd quiet found⟩

lemma compile_rejects {source : String} {strings : StringTable} {serial : Nat}
    (found : (compiled source strings serial).2.diagnostics.isEmpty = false) :
    ∃ diagnostics, (compile source strings serial).outcome = .error diagnostics := by
  cases outcome : (compile source strings serial).outcome with
  | error diagnostics => exact ⟨diagnostics, rfl⟩
  | ok p => exact nomatch found.symm.trans (compile_ok_iff.1 outcome).1

/-! ## Different constants -/

/-- Among the constants that bodies have, the order of two that are compared does not matter. -/
lemma Known.comm {T : Moment} {c d : Constant} (known : Known T c) (known' : Known T d)
    (different : c.same d = false) : d.same c = false := by
  cases c with
  | number x =>
    cases d with
    | number y =>
      obtain ⟨text, rfl⟩ := known
      obtain ⟨text', rfl⟩ := known'
      refine Bool.eq_false_iff.2 fun same => ?_
      rw [Constant.same, Decimal.read_eq_of_beq same, Decimal.read_beq_self] at different
      cases different
    | _ => rfl
  | string object =>
    cases d with
    | string other => exact BEq.comm.trans different
    | _ => rfl
  | prototype p =>
    cases d with
    | prototype q => exact BEq.comm.trans different
    | _ => rfl

/-- No constant of the pool is there twice. -/
def Distinct (pool : Array Constant) : Prop :=
  pool.toList.Pairwise fun c d => c.same d = false ∧ d.same c = false

lemma Compile.Body.Tidy.distinct_both {T : Moment} {b : Body} (h : b.Tidy T) : Distinct b.constants :=
  h.distinct.imp_of_mem fun there there' different =>
    ⟨different, Known.comm (h.known _ (Array.mem_toList_iff.1 there))
      (h.known _ (Array.mem_toList_iff.1 there')) different⟩

/-! ## Finished functions -/

lemma Compile.Finished.distinct {T : Moment} {p : Prototype} (h : Finished T p) :
    Distinct p.chunk.constants := by
  obtain ⟨b, tidy, same⟩ := h
  rw [same, Body.assemble, b.constants_chunk]
  exact tidy.distinct_both

lemma Compile.Finished.room {T : Moment} {p : Prototype} (h : Finished T p) (quiet : T.quiet = true) :
    p.chunk.constants.size ≤ maxOperands := by
  obtain ⟨b, tidy, same⟩ := h
  rw [same, Body.assemble, b.constants_chunk]
  exact tidy.room quiet

/-- The decoder finds the instructions of a finished body, if nothing was complained of. -/
lemma Compile.Body.Tidy.splits {T : Moment} {b : Body} (h : b.Tidy T) (quiet : T.quiet = true) :
    Splits b.chunk 0 (placed 0 b.instrs) := by
  refine splits_bytes b.code_chunk fun i there => ?_
  have fits := h.closures quiet i there
  cases i with
  | closure index captures =>
    obtain ⟨p, entry, count⟩ := fits
    rw [Instr.FitsPool, Chunk.captureCountAt, b.constants_chunk, entry, count]
    rfl
  | _ => trivial

lemma Compile.Body.Tidy.instrs {T : Moment} {b : Body} (h : b.Tidy T) (quiet : T.quiet = true)
    (serial : Nat) : (b.assemble serial).instrs = b.instrs := by
  rw [PrototypeOf.instrs]
  exact ((h.splits quiet).instrsFrom _ (Nat.le_of_eq (Nat.zero_add _).symm)).trans (map_snd_placed 0 _)

/-- There are as many functions in the pool as the code makes closures. -/
lemma Compile.Finished.closures_le {T : Moment} {p : Prototype} (h : Finished T p)
    (quiet : T.quiet = true) : p.closures.length ≤ p.chunk.constants.toList.countP isFunction := by
  obtain ⟨b, tidy, same⟩ := h
  have makes : p.closures.length ≤ p.instrs.countP makesClosure := by
    rw [PrototypeOf.closures, List.length_filterMap_eq_countP]
    refine List.countP_mono_left fun i _ makes => ?_
    cases i <;> first | rfl | cases makes
  rw [same, tidy.instrs quiet] at makes
  rw [same]
  refine Nat.le_trans makes (Nat.le_trans tidy.counted (Nat.le_of_eq ?_))
  rw [Body.assemble, b.constants_chunk]

/-- A pool has room for different atoms and for the functions. -/
lemma atoms_le {pool : Array Constant} {atoms : List Atom} (distinct : atoms.Nodup)
    (there : ∀ a ∈ atoms, ∃ c ∈ pool, c.atom? = some a) :
    atoms.length + pool.toList.countP isFunction ≤ pool.size := by
  have inside : atoms ⊆ pool.toList.filterMap Constant.atom? := by
    intro a needed
    obtain ⟨c, entry, same⟩ := there a needed
    exact List.mem_filterMap.2 ⟨c, Array.mem_toList_iff.2 entry, same⟩
  have fewer := (List.subperm_of_subset distinct inside).length_le
  have others : pool.toList.countP (fun c => c.atom?.isSome) =
      pool.toList.countP (fun c => decide ¬isFunction c = true) :=
    List.countP_congr fun c _ => by cases c <;> simp [Constant.atom?, isFunction]
  have all := List.length_eq_countP_add_countP isFunction (l := pool.toList)
  rw [List.length_filterMap_eq_countP, others] at fewer
  rw [Array.length_toList] at all
  omega

/-! ## The functions of a program -/

/-- A function of a program: the script, or one that is declared in a function of the program. -/
inductive FunctionOf (ds : Stmt .declarations) : Function → Prop where
  | script : FunctionOf ds (.script ds)
  | inner {f g} (outer : FunctionOf ds f) (declared : g ∈ f.functions) : FunctionOf ds g

lemma Compile.Contains.trans {p q r : Prototype} (h : Contains p q) (h' : Contains q r) : Contains p r := by
  induction h with
  | self => exact h'
  | nested there _ ih => exact .nested there (ih h')

/-- The function that an instruction makes a closure of is among the constants. -/
lemma Instr.mem_of_closure? {pool : Array Constant} {i : Instr} {captures : List Capture} {p : Prototype}
    (closes : i.closure? pool = some (captures, p)) : Constant.prototype p ∈ pool := by
  cases i with
  | closure index captures' =>
    rw [Instr.closure?] at closes
    cases entry : pool[index.toNat]? with
    | none => rw [entry] at closes; cases closes
    | some constant =>
      rw [entry] at closes
      cases constant with
      | prototype q =>
        obtain ⟨-, rfl⟩ := Prod.mk.inj (Option.some.inj closes)
        exact Array.mem_of_getElem? entry
      | _ => cases closes
  | _ => cases closes

/-- The code of a function of the program is inside the script. -/
lemma CodeOf.inside {p q : Prototype} {ds : Stmt .declarations} {chain : List (List Capture)} {f : Function}
    (code : CodeOf p ds chain q f) : Contains p q := by
  induction code with
  | script => exact .self
  | @inner _ q _ captures r _ k _ made _ ih =>
    have made := List.mem_of_getElem? made
    obtain ⟨i, -, closes⟩ := List.mem_filterMap.1 made
    exact ih.trans (.nested (Instr.mem_of_closure? closes) .self)

/-- Every function of the program has code. -/
lemma FunctionOf.code {p : Prototype} {ds : Stmt .declarations} {f : Function} (h : FunctionOf ds f)
    (lengths : ∀ chain q f, CodeOf p ds chain q f → q.closures.length = f.functions.length) :
    ∃ chain q, CodeOf p ds chain q f := by
  induction h with
  | script => exact ⟨_, p, .script⟩
  | @inner f g _ declared ih =>
    obtain ⟨chain, q, code⟩ := ih
    obtain ⟨k, bound, there⟩ := List.mem_iff_getElem.1 declared
    have made : k < q.closures.length := by rwa [lengths chain q f code]
    exact ⟨_, _, code.inner (List.getElem?_eq_getElem made) (there ▸ List.getElem?_eq_getElem bound)⟩

/-- The function needs more different constants than there is room for: its literals and names, and the
functions declared in it. -/
def Syntax.Function.Overflows (f : Function) : Prop :=
  ∃ atoms : List Atom, atoms.Nodup ∧ atoms ⊆ f.atoms ∧ maxOperands < atoms.length + f.functions.length

/-- A function in a source that compiles has room for its constants. -/
lemma not_overflows {source : String} {strings : StringTable} {serial : Nat} {p : Prototype}
    {ds : Stmt .declarations} {f : Function}
    (compiles : (compile source strings serial).outcome = .ok p)
    (reads : ReadsProgram ((Token.scan source).toList.map Token.word) ds) (function : FunctionOf ds f) :
    ¬f.Overflows := by
  rintro ⟨atoms, distinct, needed, many⟩
  obtain ⟨ds', reads', -, selects⟩ := compile_operands compiles
  obtain ⟨ds'', reads'', -, uses⟩ := compile_accesses compiles
  obtain rfl := reads.unique reads'
  obtain rfl := reads.unique reads''
  obtain ⟨chain, q, code⟩ := function.code fun chain q f code => (uses chain q f code).2.2
  obtain ⟨quiet, same⟩ := compile_ok_iff.1 compiles
  obtain ⟨T, accepted, -, -, -, finished, -⟩ := compile_finished source strings serial
  rw [same] at finished
  have done := finished q code.inside
  have there : ∀ a ∈ atoms, ∃ c ∈ q.chunk.constants, c.atom? = some a := by
    intro a inside
    have selected : some a ∈ q.selected := by
      rw [selects chain q f code]
      exact List.mem_map_of_mem (needed inside)
    obtain ⟨index, -, entry⟩ := List.mem_map.1 selected
    obtain ⟨c, found, atom⟩ := Option.bind_eq_some_iff.1 entry
    exact ⟨c, Array.mem_of_getElem? found, atom⟩
  have functions := done.closures_le (accepted.trans quiet)
  rw [(uses chain q f code).2.2] at functions
  have room := done.room (accepted.trans quiet)
  have all := atoms_le distinct there
  omega

/-- In a source that compiles the constants of each pool are different, operands select the literals and
names of the function in the program, and no function needs more constants than there is room for.
A pool that is too large makes the source be rejected, whatever else is complained of.  What is selected for a
literal is what it stands for. -/
theorem compile_pools (source : String) (strings : StringTable) (serial : Nat) :
    (∀ p, (compile source strings serial).outcome = .ok p →
      (∀ q, Contains p q → Distinct q.chunk.constants) ∧
      ∃ ds, ReadsProgram ((Token.scan source).toList.map Token.word) ds ∧
        (∀ q, Contains p q → ∃ chain f, CodeOf p ds chain q f) ∧
        (∀ chain q f, CodeOf p ds chain q f → q.selected = f.atoms.map some) ∧
        ∀ f, FunctionOf ds f → ¬f.Overflows) ∧
    (∀ q, Contains (compiled source strings serial).1 q → q.chunk.constants.size ≤ maxOperands ∨
      ∃ diagnostics, (compile source strings serial).outcome = .error diagnostics) ∧
    ∀ t ∈ Token.scan source, ∀ a, t.word.literal? = some a ↔ t.word.Denotes a := by
  obtain ⟨T, accepted, -, -, -, finished, -⟩ := compile_finished source strings serial
  refine ⟨fun p compiles => ?_, fun q inside => ?_, fun t there => literal_iff there⟩
  · obtain ⟨-, same⟩ := compile_ok_iff.1 compiles
    rw [same] at finished
    obtain ⟨ds, reads, functions, selects⟩ := compile_operands compiles
    exact ⟨fun q inside => (finished q inside).distinct, ds, reads, functions, selects,
      fun f function => not_overflows compiles reads function⟩
  · by_cases quiet : (compiled source strings serial).2.diagnostics.isEmpty = true
    · exact .inl ((finished q inside).room (accepted.trans quiet))
    · exact .inr (compile_rejects (Bool.eq_false_iff.2 quiet))

/-- A number and a text that are used twice, the text as a name, too. -/
theorem compile_pools_shared :
    ∃ p, (compile "fun b(a) \x7b return 0.5 + a; \x7d print b(\"b\") + 0.5 + b(0.50);" .empty 0).outcome = .ok p ∧
      (∀ q, Contains p q → Distinct q.chunk.constants) ∧
      ∃ ds, (∀ q, Contains p q → ∃ chain f, CodeOf p ds chain q f) ∧
        ∀ chain q f, CodeOf p ds chain q f → q.selected = f.atoms.map some := by
  generalize result : (compile _ _ _).outcome = outcome
  have compiles : outcome.toOption.isSome = true := by
    rw [← result]
    decide +kernel
  cases outcome with
  | error _ => cases compiles
  | ok p =>
    obtain ⟨distinct, ds, -, functions, selects, -⟩ := (compile_pools _ _ _).1 p result
    exact ⟨p, rfl, distinct, ds, functions, selects⟩

end Lox
