import Lox.Proofs.Compile.Accesses
import Lox.Proofs.Compile.Nameless
import Lox.Proofs.Compile.SlotZero

/-!
# Scripts and the functions inside

All functions inside a script have names (`compile_named`), so the script is told apart by having none.
Slot zero of the script is the script itself.  No name means that slot, and no function captures it, so
the code of the script neither fetches it nor makes a closure over it (`compile_shuns`).
-/

namespace Lox.Syntax

open Compile

/-! ## Names of functions -/

/-- The functions and methods declared in the phrase, and in functions inside it, have names. -/
def Stmt.Named : {s : StmtSort} → Stmt s → Prop
  | _, .ifThen _ t => t.Named
  | _, .ifElse _ t e => t.Named ∧ e.Named
  | _, .whileLoop _ body => body.Named
  | _, .forLoop _ _ _ body => body.Named
  | _, .block ds => ds.Named
  | _, .statement s => s.Named
  | _, .function x _ body => x ≠ "" ∧ body.Named
  | _, .cls _ _ ms => ms.Named
  | _, .declare d ds => d.Named ∧ ds.Named
  | _, .method x _ body ms => x ≠ "" ∧ body.Named ∧ ms.Named
  | _, _ => True

/-- Proper words name all functions. -/
theorem Stmt.Reads.named {s : StmtSort} {ws rest : List Word} {t : Stmt s} (h : Stmt.Reads ws t rest)
    (words : ProperWords ws) : t.Named := by
  induction h with
  | print | expression | ret | var | noDeclarations | noMethods => trivial
  | ifThen condition _ _ ih =>
    simp only [properWords_cons] at words
    exact ih (condition.proper words.2.2).2
  | ifElse condition branch _ ih ih' =>
    simp only [properWords_cons] at words
    have inside := (condition.proper words.2.2).2
    exact ⟨ih inside, ih' ((properWords_cons _ _).1 (branch.proper inside).2).2⟩
  | whileLoop condition _ ih =>
    simp only [properWords_cons] at words
    exact ih (condition.proper words.2.2).2
  | forLoop start condition increment _ ih =>
    simp only [properWords_cons] at words
    exact ih (increment.proper (condition.proper (start.proper words.2.2).2).2).2
  | block _ ih => exact ih ((properWords_cons _ _).1 words).2
  | statement _ ih => exact ih words
  | function _ ih =>
    simp only [properWords_cons, properWords_append] at words
    obtain ⟨-, name, -, -, -, inside⟩ := words
    exact ⟨(name rfl).1, ih inside⟩
  | cls _ ih =>
    simp only [properWords_cons, properWords_append] at words
    obtain ⟨-, -, -, -, inside⟩ := words
    exact ih inside
  | declare first _ ih ih' => exact ⟨ih words, ih' (first.proper words).2⟩
  | method inner _ ih ih' =>
    simp only [properWords_cons, properWords_append] at words
    obtain ⟨name, -, -, -, inside⟩ := words
    exact ⟨(name rfl).1, ih inside, ih' ((properWords_cons _ _).1 (inner.proper inside).2).2⟩

lemma Stmt.Named.functions {s : StmtSort} {t : Stmt s} {around : Env} {top : Bool} {names : List String}
    (named : t.Named) : ∀ f ∈ t.functions around top names, f.name ≠ "" ∧ f.body.Named := by
  induction t generalizing top names with
  | ifThen _ t ih | whileLoop _ t ih => exact ih named
  | ifElse _ t e ih ih' => exact List.forall_mem_append.2 ⟨ih named.1, ih' named.2⟩
  | forLoop first _ _ body ih => cases first <;> exact ih named
  | block ds ih | statement ds ih => exact ih named
  | function x params body => exact List.forall_mem_singleton.2 named
  | cls x superclass ms ih => cases superclass <;> exact ih named
  | declare d ds ih ih' => exact List.forall_mem_append.2 ⟨ih named.1, ih' named.2⟩
  | method x params body ms _ ih' => exact List.forall_mem_cons.2 ⟨⟨named.1, named.2.1⟩, ih' named.2.2⟩
  | _ => exact List.forall_mem_nil _

end Lox.Syntax

namespace Lox

open Compile Syntax

/-! ## Names of prototypes -/

lemma CodeOf.named {p q : Prototype} {ds : Stmt .declarations} {chain : List (List Capture)} {f : Function}
    (code : CodeOf p ds chain q f) (named : ds.Named) : f.body.Named := by
  induction code with
  | script => exact named
  | inner _ _ declared ih => exact (ih.functions _ (List.mem_of_getElem? declared)).2

/-- All functions inside the script of a source that is accepted have names. -/
theorem compile_named {source : String} {strings : StringTable} {serial : Nat} {p q r : Prototype}
    (compiles : (compile source strings serial).outcome = .ok p) (inside : Contains p q)
    (there : .prototype r ∈ q.chunk.constants) : r.name ≠ "" := by
  obtain ⟨ds, ⟨rest, reads, -⟩, proper, script⟩ := compile_emits compiles
  have named := reads.named (Token.properWords_scan source)
  obtain ⟨chain, f, code⟩ := CodeOf.script.contains script proper inside
  obtain ⟨_, _, Γ, _, _, _, rfl, implements⟩ := code.implements script proper
  obtain ⟨captures, made⟩ := implements.compiled.closes there
  obtain ⟨k, bound, here⟩ := List.mem_iff_getElem.1 made
  have length := implements.agrees.functions.length_eq
  rw [closuresIn, ← implements.compiled.pool] at length
  have declared := List.getElem?_eq_getElem (Nat.lt_of_lt_of_eq bound length)
  have inner := code.inner (List.getElem?_eq_some_iff.2 ⟨bound, here⟩) declared
  obtain ⟨_, _, _, _, _, _, _, implements'⟩ := inner.implements script proper
  rw [implements'.assembles.name]
  exact ((code.named named).functions _ (List.mem_of_getElem? declared)).1

/-! ## Slot zero of scripts -/

/-- The instruction neither fetches nor captures slot zero. -/
def Instr.Shuns : Instr → Prop
  | .getLocal slot => slot ≠ 0
  | .closure _ captures => ⟨true, 0⟩ ∉ captures
  | _ => True

namespace Compile

variable {Γ Γ' : Context} {L L' : List Local} {x : String} {place : Access}

/-- Slot zero has no name, and no function captures it. -/
def Veiled (L : List Local) : Prop := ∃ above zero, L = above ++ [zero] ∧ zero.name = "" ∧ zero.isCaptured = false

lemma Veiled.cons (h : Veiled L) (v : Local) : Veiled (v :: L) := by
  obtain ⟨above, zero, rfl, known⟩ := h
  exact ⟨v :: above, zero, rfl, known⟩

lemma Veiled.binds {top : Bool} {define : List Instr} (h : Veiled L) (binds : Binds Γ L x top define L') :
    Veiled L' := by
  cases binds with
  | global => exact h
  | slot => exact h.cons _

lemma Veiled.positive (h : Veiled L) : L.length ≠ 0 := by
  obtain ⟨above, zero, rfl, -⟩ := h
  rw [List.length_append, List.length_singleton]
  exact Nat.succ_ne_zero _

lemma Veiled.zero (h : Veiled L) {v : Local} (found : findLocal? x L = some (0, v)) :
    x = "" ∧ v.isCaptured = false := by
  obtain ⟨above, zero, rfl, unnamed, unmarked⟩ := h
  have there := findLocal?_fromBottom found
  rw [fromBottom?, List.reverse_append, List.reverse_singleton, List.singleton_append] at there
  obtain rfl := Option.some.inj there
  exact ⟨(findLocal?_named found).symm.trans unnamed, unmarked⟩

lemma read_shuns (leads : Resolves Γ L x place) (named : x ≠ "") (veiled : Veiled L) : place.read.Shuns := by
  cases leads with
  | @slot slot v found fits =>
    refine slot_ne_zero fits fun zero => ?_
    subst zero
    exact named (veiled.zero found).1
  | captured | globalName => trivial

/-- A function captures no slot zero that is not marked. -/
lemma closure_shuns {p : Prototype} {name : String} {n : Nat} {kind : BodyKind} {items : List Item} {index : UInt8}
    (assembles : Assembles p name n Γ' items L') (inside : Inside Γ' kind Γ L) (veiled : Veiled L) :
    (Instr.closure index Γ'.captures.toList).Shuns := by
  intro there
  obtain ⟨i, bound, entry⟩ := List.mem_iff_getElem.1 there
  obtain ⟨x, captured⟩ := assembles.captured i bound
  have fits : (UInt8.ofNat i).toNat = i :=
    UInt8.toNat_ofNat_of_lt' (Nat.lt_of_lt_of_le bound assembles.capturesFit)
  have entry : Γ'.captures[(UInt8.ofNat i).toNat]? = some ⟨true, 0⟩ := by
    rw [fits, ← Array.getElem?_toList, List.getElem?_eq_getElem bound, entry]
  rw [inside.around] at captured
  cases captured with
  | @here _ _ _ _ slot v own found marked few =>
    have same := congrArg UInt8.toNat (Capture.mk.inj (Option.some.inj (own.symm.trans entry))).2
    rw [UInt8.toNat_ofNat_of_lt' few] at same
    subst same
    rw [(veiled.zero found).2] at marked
    cases marked
  | further own => cases own.symm.trans entry

end Compile

namespace Syntax

variable {Γ : Context} {L L' : List Local} {items : List Item}

lemma literal_shuns {kind : TokenKind} {i : Instr} (word : leading? kind = some (.literal i)) : i.Shuns := by
  cases kind <;> cases word <;> trivial

lemma unary_shuns {op : TokenKind} {i : Instr} (word : leading? op = some (.unary i)) : i.Shuns := by
  cases op <;> cases word <;> trivial

lemma binary_shuns {op : TokenKind} {p : Precedence} {is : List Instr}
    (word : trailing? op = some (p, .binary is)) : ∀ i ∈ is, i.Shuns := by
  cases op <;> cases word <;>
    repeat' first | exact List.forall_mem_nil _ | refine List.forall_mem_cons.2 ⟨trivial, ?_⟩

lemma write_shuns (place : Access) : place.write.Shuns := by cases place <;> trivial

/-- An expression does not go to slot zero. -/
theorem Expr.Emits.shuns {s : ExprSort} {e : Expr s} {code : List Instr} (h : e.Emits Γ L code)
    (proper : e.Proper) (veiled : Veiled L) : ∀ i ∈ code, i.Shuns := by
  have one : ∀ {i : Instr}, i.Shuns → ∀ j ∈ [i], j.Shuns := List.forall_mem_singleton.2
  induction h with
  | number | string => exact one trivial
  | literal word => exact one (literal_shuns word)
  | name leads => exact one (read_shuns leads proper.1 veiled)
  | this leads => exact one (read_shuns leads (by decide) veiled)
  | assign _ _ ih => exact List.forall_mem_append.2 ⟨ih proper.2, one (write_shuns _)⟩
  | superGet _ self home =>
    exact List.forall_mem_cons.2 ⟨read_shuns self (by decide) veiled,
      List.forall_mem_cons.2 ⟨read_shuns home (by decide) veiled, one trivial⟩⟩
  | superCall _ self _ home _ _ ih =>
    exact List.forall_mem_cons.2 ⟨read_shuns self (by decide) veiled, List.forall_mem_append.2
      ⟨ih proper, List.forall_mem_cons.2 ⟨read_shuns home (by decide) veiled, one trivial⟩⟩⟩
  | grouping _ ih | someArguments _ ih | lastArgument _ ih => exact ih proper
  | unary word _ ih => exact List.forall_mem_append.2 ⟨ih proper, one (unary_shuns word)⟩
  | binary word _ _ ih ih' =>
    exact List.forall_mem_append.2 ⟨ih proper.1, List.forall_mem_append.2 ⟨ih' proper.2, binary_shuns word⟩⟩
  | and _ _ _ ih ih' =>
    exact List.forall_mem_append.2 ⟨ih proper.1, List.forall_mem_cons.2 ⟨trivial,
      List.forall_mem_cons.2 ⟨trivial, ih' proper.2⟩⟩⟩
  | or _ _ _ ih ih' =>
    exact List.forall_mem_append.2 ⟨ih proper.1, List.forall_mem_cons.2 ⟨trivial,
      List.forall_mem_cons.2 ⟨trivial, List.forall_mem_cons.2 ⟨trivial, ih' proper.2⟩⟩⟩⟩
  | call _ _ _ ih ih' | set _ _ _ ih ih' | invoke _ _ _ _ ih ih' =>
    exact List.forall_mem_append.2 ⟨ih proper.1, List.forall_mem_append.2 ⟨ih' proper.2, one trivial⟩⟩
  | get _ _ ih => exact List.forall_mem_append.2 ⟨ih proper, one trivial⟩
  | noArguments => exact List.forall_mem_nil _
  | argument _ _ ih ih' => exact List.forall_mem_append.2 ⟨ih proper.1, ih' proper.2⟩

lemma clause_shuns {c : Option (Expr .expression)} {code : Option (List Instr)} (h : ClauseEmits Γ L c code)
    (proper : ClauseProper c) (veiled : Veiled L) : ∀ is ∈ code, ∀ i ∈ is, i.Shuns := by
  intro is there
  cases h with
  | none => cases there
  | some inner =>
    obtain rfl := Option.some.inj there
    exact inner.shuns (proper _ rfl) veiled

lemma value_shuns {value : Option (Expr .expression)} {code : List Instr} (h : ValueEmits Γ L value code)
    (proper : ClauseProper value) (veiled : Veiled L) : ∀ i ∈ code, i.Shuns := by
  cases h with
  | none => exact List.forall_mem_singleton.2 trivial
  | some inner => exact inner.shuns (proper _ rfl) veiled

lemma initializer_shuns {first : Initializer} {code : List Instr} (h : Initializer.Emits Γ L first code)
    (proper : first.Proper) (veiled : Veiled L) : ∀ i ∈ code, i.Shuns := by
  cases h with
  | none => exact List.forall_mem_nil _
  | expression inner =>
    exact List.forall_mem_append.2 ⟨inner.shuns proper veiled, List.forall_mem_singleton.2 trivial⟩

lemma binds_shuns {top : Bool} {x : String} {define : List Instr} (h : Binds Γ L x top define L') :
    ∀ i ∈ define, i.Shuns := by
  cases h with
  | global => exact List.forall_mem_singleton.2 trivial
  | slot => exact List.forall_mem_nil _

lemma exits_shuns (inner : List Local) : ∀ i ∈ exits inner, i.Shuns := by
  intro i there
  obtain ⟨v, -, rfl⟩ := List.mem_map.1 there
  split <;> trivial

lemma loop_shuns {c step : Option (List Instr)} {items : List Item} (cond : ∀ is ∈ c, ∀ i ∈ is, i.Shuns)
    (advance : ∀ is ∈ step, ∀ i ∈ is, i.Shuns) (inner : ∀ i ∈ instrs items, i.Shuns) :
    ∀ i ∈ instrs (loopItems L c step items), i.Shuns := by
  have condition : ∀ i ∈ conditionCode step (itemsSize items) c, i.Shuns := by
    cases c with
    | none => exact List.forall_mem_nil _
    | some is =>
      exact List.forall_mem_append.2 ⟨cond is rfl,
        List.forall_mem_cons.2 ⟨trivial, List.forall_mem_singleton.2 trivial⟩⟩
  have increment : ∀ i ∈ incrementCode c step, i.Shuns := by
    cases step with
    | none => exact List.forall_mem_nil _
    | some is =>
      exact List.forall_mem_cons.2 ⟨trivial, List.forall_mem_append.2 ⟨advance is rfl,
        List.forall_mem_cons.2 ⟨trivial, List.forall_mem_singleton.2 trivial⟩⟩⟩
  have exit : ∀ i ∈ exitCode c, i.Shuns := by
    cases c with
    | none => exact List.forall_mem_nil _
    | some is => exact List.forall_mem_singleton.2 trivial
  simp only [loopItems, instrs_append, instrs_under, List.forall_mem_append, List.forall_mem_cons]
  exact ⟨⟨condition, increment⟩, inner, trivial, exit⟩

/-- The copy of a loop variable is made from a place above slot zero. -/
lemma copy_shuns {v w : Local} {body : List Item} (inner : ∀ i ∈ instrs body, i.Shuns) (veiled : Veiled L)
    (fits : L.length + 2 ≤ maxOperands) : ∀ i ∈ instrs (copyItems (v :: L) L.length w body), i.Shuns := by
  have positive := veiled.positive
  have again : (v :: L).length < maxOperands := by
    rw [List.length_cons]
    omega
  simp only [copyItems, instrs_append, instrs_under, List.forall_mem_append, List.forall_mem_cons]
  exact ⟨⟨slot_ne_zero (by omega) positive, List.forall_mem_nil _⟩, inner,
    ⟨slot_ne_zero again (Nat.succ_ne_zero _), trivial, trivial, List.forall_mem_nil _⟩, exits_shuns [w]⟩

/-- A statement of a script does not go to slot zero, which stays as it is. -/
theorem Stmt.Emits.shuns {top : Bool} {s : StmtSort} {t : Stmt s} (h : t.Emits Γ top L items L')
    (script : Γ.kind = .script) (proper : t.Proper) (veiled : Veiled L) :
    (∀ i ∈ instrs items, i.Shuns) ∧ Veiled L' := by
  have drop : ∀ i ∈ [Instr.pop], i.Shuns := List.forall_mem_singleton.2 trivial
  induction h with
  | print inner | expression inner =>
    rw [instrs_framed, instrs_under]
    exact ⟨List.forall_mem_append.2 ⟨inner.shuns proper veiled, List.forall_mem_singleton.2 trivial⟩, veiled⟩
  | retNone inside | retSome inside => exact absurd script inside
  | ifThen condition _ _ ih =>
    simp only [instrs_framed, instrs_append, instrs_under, List.forall_mem_append, List.forall_mem_cons]
    exact ⟨⟨⟨condition.shuns proper.1 veiled, trivial, trivial, List.forall_mem_nil _⟩,
      (ih script proper.2 veiled).1, trivial, trivial, List.forall_mem_nil _⟩, veiled⟩
  | ifElse condition _ _ _ _ ih ih' =>
    simp only [instrs_framed, instrs_append, instrs_under, List.forall_mem_append, List.forall_mem_cons]
    exact ⟨⟨⟨condition.shuns proper.1 veiled, trivial, trivial, List.forall_mem_nil _⟩,
      (ih script proper.2.1 veiled).1, ⟨trivial, trivial, List.forall_mem_nil _⟩,
      (ih' script proper.2.2 veiled).1⟩, veiled⟩
  | whileLoop condition _ _ ih =>
    rw [instrs_framed]
    refine ⟨loop_shuns ?_ nofun (ih script proper.2 veiled).1, veiled⟩
    rintro is ⟨⟩
    exact condition.shuns proper.1 veiled
  | forLoop clause condition advance _ _ ih =>
    obtain ⟨first, second, third, body⟩ := proper
    rw [instrs_framed, instrs_append, instrs_under]
    exact ⟨List.forall_mem_append.2 ⟨initializer_shuns clause first veiled,
      loop_shuns (clause_shuns condition second veiled) (clause_shuns advance third veiled)
        (ih script body veiled).1⟩, veiled⟩
  | @forVar Γ top L x value start v _ _ _ _ w _ _ clause _ _ condition advance _ localsFit _ ih =>
    obtain ⟨⟨-, first⟩, second, third, body⟩ := proper
    have declared := veiled.cons v
    have turn := copy_shuns (v := v) (w := w) (ih script body (declared.cons w)).1 veiled localsFit
    rw [instrs_framed, instrs_append, instrs_append, instrs_under, instrs_under]
    exact ⟨List.forall_mem_append.2 ⟨value_shuns clause first veiled, List.forall_mem_append.2
      ⟨loop_shuns (clause_shuns condition second declared) (clause_shuns advance third declared) turn,
        exits_shuns [v]⟩⟩, veiled⟩
  | block _ ih =>
    rw [instrs_framed, instrs_append, instrs_under]
    exact ⟨List.forall_mem_append.2 ⟨(ih script proper veiled).1, exits_shuns _⟩, veiled⟩
  | statement _ ih => exact ih script proper veiled
  | var inner binds =>
    rw [instrs_framed, instrs_under]
    exact ⟨List.forall_mem_append.2 ⟨value_shuns inner proper.2 veiled, binds_shuns binds⟩, veiled.binds binds⟩
  | function binds inside _ _ _ assembles =>
    rw [instrs_framed, instrs_under]
    exact ⟨List.forall_mem_cons.2 ⟨closure_shuns assembles inside (veiled.binds binds), binds_shuns binds⟩,
      veiled.binds binds⟩
  | cls _ binds leads _ ih =>
    have bound := veiled.binds binds
    simp only [instrs_framed, instrs_append, instrs_under, List.forall_mem_append, List.forall_mem_cons]
    exact ⟨⟨⟨trivial, binds_shuns binds⟩, ⟨read_shuns leads proper.1.1 bound, List.forall_mem_nil _⟩,
      (ih script proper.2.2 bound).1, trivial, List.forall_mem_nil _⟩, bound⟩
  | @subclass Γ top L x y ms index define L' parent hidden place again items _ binds _ super _ leads leads' _ _ ih =>
    have bound := veiled.binds binds
    have within := bound.cons hidden
    simp only [instrs_framed, instrs_append, instrs_under, List.forall_mem_append, List.forall_mem_cons]
    exact ⟨⟨⟨trivial, binds_shuns binds⟩,
      ⟨read_shuns super (proper.2.1 y rfl).1 bound, List.forall_mem_nil _⟩,
      ⟨read_shuns leads proper.1.1 within, trivial, read_shuns leads' proper.1.1 within, List.forall_mem_nil _⟩,
      (ih script proper.2.2 within).1, ⟨trivial, List.forall_mem_nil _⟩, exits_shuns [hidden]⟩, bound⟩
  | noDeclarations | noMethods => exact ⟨List.forall_mem_nil _, veiled⟩
  | declare _ _ ih ih' =>
    obtain ⟨here, veiled'⟩ := ih script proper.1 veiled
    obtain ⟨others, veiled''⟩ := ih' script proper.2 veiled'
    rw [instrs_append]
    exact ⟨List.forall_mem_append.2 ⟨here, others⟩, veiled''⟩
  | method _ inside _ _ _ assembles _ _ ih' =>
    simp only [instrs_append, instrs_under, List.forall_mem_append, List.forall_mem_cons]
    exact ⟨⟨⟨closure_shuns assembles inside veiled, trivial, List.forall_mem_nil _⟩,
      (ih' script proper.2.2 veiled).1⟩, veiled⟩

end Syntax

/-- Where control flow comes to in the script of a source that is accepted, it does not go to slot zero. -/
theorem compile_shuns {source : String} {strings : StringTable} {serial : Nat} {p : Prototype} {o k : Nat} {i : Instr}
    (compiles : (compile source strings serial).outcome = .ok p) (reaches : Reaches p o k)
    (decoded : p.chunk.instrAt? o = some i) : i.Shuns := by
  obtain ⟨ds, Γ, v, items, L, unmarked, proper, kind, around, named, emits, assembles⟩ := compile_overlooks compiles
  have compiled := Compiled.script kind around named emits proper assembles
  obtain ⟨before, after, split, -⟩ := compiled.place reaches decoded
  have there : i ∈ instrs (items ++ under L (returnCode Γ.kind)) := by
    rw [split]
    exact List.mem_append_right _ List.mem_cons_self
  rw [instrs_append, instrs_under, kind] at there
  rcases List.mem_append.1 there with inside | last
  · exact (emits.shuns kind proper ⟨[], v, rfl, named, unmarked⟩).1 i inside
  · rcases List.mem_cons.1 last with rfl | last
    · trivial
    · rw [List.mem_singleton.1 last]
      trivial

end Lox
