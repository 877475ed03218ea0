import Lox.Proofs.Compile.Acceptance
import Lox.Proofs.Compile.LawfulPrograms
import Lox.Proofs.Decimal.LiteralEquality
import Lox.Proofs.Syntax.Parentheses

/-!
# The code of an expression

An expression statement compiles to the post-order of its tree: the operands before the operator, each
constant by its index in the pool (`Expr.postOrder`).  The tree may be spelled with the parentheses that
it needs or with more, the code is the same (`compile_postOrder`).

Compiling says for every instruction what its operand refers to (`Expr.Emits`).  Names are globals in a
script without declarations, and no two constants of a pool are the same, so there is only one index for
each (`Literal.place_eq`).
-/

namespace Lox.Syntax

open Compile

variable {s : ExprSort} {e : Expr .expression}

/-! ## Post-order -/

/-- The code of a phrase in post-order, where `place` tells the index of each constant.  The operators
`and` and `or` jump over their right operand. -/
def Expr.postOrder (place : Literal → UInt8) : {s : ExprSort} → Expr s → List Instr
  | _, .number text => [.constant (place (.number (Decimal.read text)))]
  | _, .string text => [.constant (place (.string (unquote text)))]
  | _, .literal kind => (value? kind).toList
  | _, .name x => [.getGlobal (place (.string x))]
  | _, .assign x value => value.postOrder place ++ [.setGlobal (place (.string x))]
  | _, .grouping e => e.postOrder place
  | _, .unary op e => e.postOrder place ++ (unary? op).toList
  | _, .binary op l r =>
    l.postOrder place ++ (r.postOrder place ++ ((binary? op).elim [] (·.2)))
  | _, .and l r =>
    l.postOrder place ++ .jumpIfFalse (UInt16.ofNat (codeSize (r.postOrder place) + 1)) :: .pop ::
      r.postOrder place
  | _, .or l r =>
    l.postOrder place ++ .jumpIfFalse 3 ::
      .jump (UInt16.ofNat (codeSize (r.postOrder place) + 1)) :: .pop :: r.postOrder place
  | _, .call f args =>
    f.postOrder place ++ (args.postOrder place ++ [.call (UInt8.ofNat args.count)])
  | _, .get e p => e.postOrder place ++ [.getProperty (place (.string p))]
  | _, .set e p value =>
    e.postOrder place ++ (value.postOrder place ++ [.setProperty (place (.string p))])
  | _, .invoke e p args =>
    e.postOrder place ++
      (args.postOrder place ++ [.invoke (place (.string p)) (UInt8.ofNat args.count)])
  | _, .someArguments args => args.postOrder place
  | _, .lastArgument e => e.postOrder place
  | _, .argument e args => e.postOrder place ++ args.postOrder place
  | _, .noArguments => []
  -- There is no receiver outside of classes.
  | _, .this | _, .superGet _ | _, .superCall _ _ => []

/-- The constants of an expression statement, in the order of their first use. -/
def Expr.pool (e : Expr s) : List Literal := Literal.distinct (e.constants [[BodyKind.script.slotZero]])

/-- The index of a constant in a pool. -/
def Literal.place (pool : List Literal) (l : Literal) : UInt8 := UInt8.ofNat (pool.findIdx (·.same l))

/-- The program of an expression statement. -/
def Expr.program (e : Expr .expression) : Stmt .declarations :=
  .declare (.statement (.expression e)) .noDeclarations

/-! ## Parentheses do not matter -/

lemma Expr.count_expression (e : Expr .expression) : e.count = 1 := by cases e <;> rfl

lemma Expr.count_strip (e : Expr s) : e.strip.count = e.count := by
  induction e with
  | grouping e ih => rw [count_expression, count_expression]
  | someArguments args ih => exact ih
  | argument e args _ ih => exact congrArg (· + 1) ih
  | _ => rfl

lemma Expr.postOrder_strip (place : Literal → UInt8) (e : Expr s) :
    e.strip.postOrder place = e.postOrder place := by
  induction e <;> simp_all [Expr.strip, Expr.postOrder, Expr.count_strip]

lemma Expr.constants_strip (env : Env) (e : Expr s) : e.strip.constants env = e.constants env := by
  induction e <;> simp_all [Expr.strip, Expr.constants]

/-! ## The places of constants -/

lemma Literal.distinct_pairwise (ls : List Literal) :
    (Literal.distinct ls).Pairwise fun a b => a.same b = false := by
  induction ls using List.reverseRecOn with
  | nil => exact .nil
  | append_singleton ls l ih =>
    rw [distinct_append, Literal.add]
    split
    · exact ih
    · next new =>
      refine List.pairwise_append.2 ⟨ih, List.pairwise_singleton _ _, fun a there b last => ?_⟩
      obtain rfl := List.mem_singleton.1 last
      exact Bool.eq_false_iff.2 fun same => new (List.any_eq_true.2 ⟨a, there, same⟩)

/-- In a pool without equal constants a constant has the index where it is found. -/
lemma Literal.place_eq {pool : List Literal} (different : pool.Pairwise fun a b => a.same b = false)
    {index : UInt8} {l : Literal} (entry : pool[index.toNat]? = some l) (reflexive : l.same l = true) :
    Literal.place pool l = index := by
  obtain ⟨bound, found⟩ := List.getElem?_eq_some_iff.1 entry
  have first : pool.findIdx (·.same l) = index.toNat := by
    refine (List.findIdx_eq bound).2 ⟨found ▸ reflexive, fun j less => ?_⟩
    rw [← found]
    exact List.pairwise_iff_getElem.1 different j index.toNat _ bound less
  rw [Literal.place, first, UInt8.ofNat_toNat]

/-! ## The code of a bare tree -/

/-- All names are globals, and every constant has the index that `place` tells. -/
structure Places (Γ : Context) (L : List Local) (place : Literal → UInt8) : Prop where
  global : ∀ {x access}, ProperName x → Resolves Γ L x access →
    ∃ index, access = .globalName index ∧ Γ.IsName index x
  name : ∀ {index x}, Γ.IsName index x → place (.string x) = index
  number : ∀ {index text}, Γ.constants[index.toNat]? = some (.number (Decimal.read text)) →
    place (.number (Decimal.read text)) = index

/-- A tree that is bare but for parentheses has the code of its post-order. -/
lemma Expr.Emits.postOrder {Γ : Context} {L : List Local} {place : Literal → UInt8}
    (places : Places Γ L place) {e : Expr s} {code : List Instr} (emits : e.Emits Γ L code)
    (bare : e.strip.Bare) (proper : e.Proper) : code = e.postOrder place := by
  induction emits with
  | number constant => rw [Expr.postOrder, places.number constant]
  | string constant => rw [Expr.postOrder, places.name constant]
  | literal word =>
    rw [Expr.postOrder, leading?_value.1 word]
    rfl
  | name leads =>
    obtain ⟨index, rfl, constant⟩ := places.global proper leads
    rw [Expr.postOrder, places.name constant]
    rfl
  | assign inner leads ih =>
    obtain ⟨index, rfl, constant⟩ := places.global proper.1 leads
    rw [Expr.postOrder, places.name constant, ih bare proper.2]
    rfl
  | this | superGet | superCall => exact bare.elim
  | grouping _ ih | someArguments _ ih | lastArgument _ ih => exact ih bare proper
  | unary word inner ih =>
    rw [Expr.postOrder, leading?_unary.1 word, ih bare.2 proper]
    rfl
  | binary word first second ih ih' =>
    rw [Expr.postOrder, trailing?_binary.1 word, ih bare.2.1 proper.1, ih' bare.2.2 proper.2]
    rfl
  | and first second fits ih ih' | or first second fits ih ih' =>
    rw [Expr.postOrder, ih bare.1 proper.1, ih' bare.2 proper.2]
  | call first second fits ih ih' =>
    rw [Expr.postOrder, ih bare.1 proper.1, ih' bare.2 proper.2]
  | get inner constant ih => rw [Expr.postOrder, places.name constant, ih bare proper]
  | set first constant second ih ih' =>
    rw [Expr.postOrder, places.name constant, ih bare.1 proper.1, ih' bare.2 proper.2]
  | invoke first constant second fits ih ih' =>
    rw [Expr.postOrder, places.name constant, ih bare.1 proper.1, ih' bare.2 proper.2]
  | noArguments => rfl
  | argument first second ih ih' =>
    rw [Expr.postOrder, ih bare.1 proper.1, ih' bare.2 proper.2]

/-- The script of an expression statement declares nothing, so all its names are globals. -/
lemma places_script {Γ : Context} {v : Local} {pool : List Literal} (around : Γ.around = [])
    (zero : v.name = "") (constants : Γ.constants.toList.map Constant.literal = pool)
    (different : pool.Pairwise fun a b => a.same b = false) :
    Places Γ [v] (Literal.place pool) := by
  have placed : ∀ {index : UInt8} {c : Constant}, Γ.constants[index.toNat]? = some c →
      c.literal.same c.literal = true → Literal.place pool c.literal = index := by
    intro index c entry reflexive
    refine Literal.place_eq different ?_ reflexive
    rw [← constants, List.getElem?_map, Array.getElem?_toList, entry]
    rfl
  refine ⟨fun proper leads => ?_, fun constant => ?_, fun constant => ?_⟩
  · cases leads with
    | slot found fits =>
      rw [findLocal?, if_neg (fun same => proper.1 (same.symm.trans zero))] at found
      cases found
    | captured missing chain =>
      rw [around] at chain
      cases chain
    | globalName missing nowhere constant => exact ⟨_, rfl, constant⟩
  · obtain ⟨object, entry, rfl⟩ := constant
    exact placed entry (beq_self_eq_true object.content)
  · exact placed constant (Decimal.read_beq_self _)

/-! ## The pool of a script -/

/-- A lawful program within the limits compiles, and the pool of its script has the constants that it
needs, each once. -/
theorem LawfulProgram.compiles {source : String} {ds : Stmt .declarations}
    (reads : ReadsProgram ((Token.scan source).toList.map Token.word) ds) (limits : WithinLimits ds)
    (lawful : LawfulProgram ds) (strings : StringTable) (serial : Nat) :
    ∃ p, (compile source strings serial).outcome = .ok p ∧
      p.chunk.constants.toList.map Constant.literal =
        Literal.distinct (ds.constants [] true [BodyKind.script.slotZero]) := by
  have whole : ds.Proper := by
    obtain ⟨rest, tree, -⟩ := reads
    exact (tree.proper (Token.properWords_scan source)).1
  let act : Compiling Unit := do
    advance
    ds.build maxNesting
    advance
    emitReturn
  have body : Decides ⟨[.opened .script []], []⟩ act (LawfulProgram ds) _ :=
    decides_advance.after fun _ => (ds.decides (limits.stands whole)).before fun _ =>
      decides_advance.after fun _ => decides_emitReturn
  have clean : (State.start (Token.scan source) strings serial).Clean := ⟨rfl, rfl, rfl⟩
  have holds := start_holds strings serial reads.proper
  have final := (body.lawful lawful _ clean holds).2.first.constants
  have quiet := (buildScript_clean strings serial reads.proper whole limits).2 lawful
  have pool : (ds.buildScript (State.start (Token.scan source) strings serial)).1.chunk.constants =
      (act (State.start (Token.scan source) strings serial)).2.body.constants :=
    Body.constants_chunk _
  rw [← pool] at final
  generalize result : ds.buildScript (State.start (Token.scan source) strings serial) = r at quiet final
  obtain ⟨p, s⟩ := r
  have built : Runs ds.buildScript (State.start (Token.scan source) strings serial) p s :=
    ⟨result, fun panicking => absurd panicking Bool.false_ne_true, quiet⟩
  refine ⟨p, (compile_builds reads strings serial).2 ⟨s, built⟩, ?_⟩
  obtain ⟨inner, same, -⟩ := ds.outline_extends (.opened .script [])
  rw [same] at final
  exact final

/-! ## Programs -/

lemma Expr.Bare.lawful {e : Expr s} (h : e.strip.Bare) (classes : List Bool) : e.Lawful none classes := by
  induction e with
  | this | superGet | superCall => exact h.elim
  | assign _ _ ih => exact ⟨nofun, ih h⟩
  | name => exact nofun
  | _ => simp_all [Expr.Bare, Expr.strip, Expr.Lawful]

lemma Expr.Canonical.reads_program (h : e.Canonical) :
    ReadsProgram (e.words ++ [.mark .semicolon, .mark .endOfInput]) e.program := by
  have statement : ReadsExpr (e.words ++ [.mark .semicolon, .mark .endOfInput]) e
      (.mark .semicolon :: [.mark .endOfInput]) := Expr.reads_iff_canonical.2 h
  exact ⟨[.mark .endOfInput], .declare (.statement (.expression statement)) (.noDeclarations (.inr rfl)), rfl⟩

/-- The source has the words of the expression and a semicolon, and nothing else. -/
def Expr.SpelledBy (e : Expr .expression) (source : String) : Prop :=
  (Token.scan source).toList.map Token.word = e.words ++ [.mark .semicolon, .mark .endOfInput]

/-- The source compiles, whatever string objects there are, and its script has this code. -/
def CompilesTo (source : String) (code : List Instr) : Prop :=
  ∀ strings serial, ∃ p, (compile source strings serial).outcome = .ok p ∧
    p.chunk.code.toList = bytes code

/-- The script of an expression statement: the value is dropped, and the script returns nil. -/
def Expr.script (e : Expr .expression) : List Instr :=
  e.postOrder (Literal.place e.pool) ++ [.pop, .pushNil, .ret]

/-- An expression statement compiles to the post-order of its tree, whatever parentheses it has. -/
lemma Expr.Canonical.compiles {source : String} (canonical : e.Canonical) (bare : e.strip.Bare)
    (spells : e.SpelledBy source) (limits : WithinLimits e.program) :
    CompilesTo source e.strip.script := by
  intro strings serial
  have reads := canonical.reads_program
  rw [← spells] at reads
  have lawful : LawfulProgram e.program := ⟨bare.lawful [], trivial⟩
  obtain ⟨p, ok, pool⟩ := lawful.compiles reads limits strings serial
  refine ⟨p, ok, ?_⟩
  obtain ⟨ds, reads', proper, Γ, v, items, L, kind, around, zero, emits, assembles⟩ := compile_emits ok
  obtain rfl := reads.unique reads'
  rw [assembles.constants] at pool
  cases emits with
  | declare first second =>
    cases second
    cases first with
    | statement inner =>
      cases inner with
      | @expression _ _ _ _ code inner =>
        have constants : e.strip.pool = Literal.distinct (e.program.constants [] true [BodyKind.script.slotZero]) := by
          rw [Expr.pool, constants_strip]
          exact congrArg Literal.distinct (List.append_nil _).symm
        have places := places_script around zero (pool.trans constants.symm) (Literal.distinct_pairwise _)
        rw [Expr.script, postOrder_strip, ← inner.postOrder places bare proper.1, assembles.code, List.append_nil,
          instrs_append, instrs_framed, instrs_under, instrs_under, kind, List.append_assoc]
        rfl

/-- A rendering with any parentheses in addition compiles to the post-order of the tree. -/
lemma Expr.Bare.compiles {source : String} {e e' : Expr .expression} (bare : e.Bare)
    (more : e.render.Parenthesized e') (spells : e'.SpelledBy source) (limits : WithinLimits e'.program) :
    CompilesTo source e.script := by
  have same : e'.strip = e := more.strip.trans bare.strip_render
  have whole := (more.canonical bare.canonical_render).compiles (same ▸ bare) spells limits
  rw [same] at whole
  exact whole

/-- Nothing is assigned to what stands in parentheses. -/
lemma not_reads_target {source : String} {ds : Stmt .declarations}
    (target : [Word.mark .rightParen, .mark .equal] <:+: (Token.scan source).toList.map Token.word) :
    ¬ReadsProgram ((Token.scan source).toList.map Token.word) ds := by
  intro reads
  obtain ⟨ts, last, all, ends, -, derived⟩ := derives_of_reads reads
  obtain ⟨before, after, split⟩ := target
  rw [all, List.map_append, List.map_singleton] at split
  have final : ∀ k, Named k [last.word] := by
    intro k
    refine ⟨fun equal => ?_, trivial⟩
    exact nomatch ends.symm.trans equal
  have named := (named_append final).2 (derived.named .semicolon)
  rw [← split, List.append_assoc] at named
  exact nomatch named.before

end Lox.Syntax

namespace Lox

open Compile Syntax

/-- Precedence and the shape of code.  A tree of literals, variables, assignments, properties, calls and
operators compiles to its post-order, spelled with the parentheses it needs or with more of them; and
every spelling that reads as the tree has the parentheses it needs.  Parentheses around a property that
is called make a call of what was an invocation, and what stands in parentheses is no target of an
assignment. -/
theorem compile_postOrder (source : String) :
    (∀ e e' : Expr .expression, e.Bare → e.render.Parenthesized e' → e'.SpelledBy source →
      WithinLimits e'.program → CompilesTo source e.script) ∧
    (∀ e e' : Expr .expression, e.Bare → e'.strip = e →
      ReadsExpr (e'.words ++ [.mark .semicolon]) e' [.mark .semicolon] → e.render.Parenthesized e') ∧
    (∀ (e : Expr .expression) (p : String) (args : Expr .argumentList) (e' : Expr .expression),
      e.Bare → args.Bare →
      (Expr.call (.grouping (Expr.get e p).render) args.render).Parenthesized e' →
      e'.SpelledBy source → WithinLimits e'.program →
      let place := Literal.place (Expr.invoke e p args).pool
      CompilesTo source
        (e.postOrder place ++ .getProperty (place (.string p)) ::
          (args.postOrder place ++ [.call (UInt8.ofNat args.count), .pop, .pushNil, .ret]))) ∧
    ([Word.mark .rightParen, .mark .equal] <:+: (Token.scan source).toList.map Token.word →
      ∀ strings serial, ∃ ds, (compile source strings serial).outcome = .error ds) := by
  refine ⟨fun e e' bare more spells limits => bare.compiles more spells limits,
    fun e e' bare same reads => ?_, fun e p args e' bare bareArgs more spells limits => ?_,
    fun target strings serial => ?_⟩
  · subst same
    exact (Expr.reads_iff_canonical.1 reads).render_least bare
  · have called : (Expr.call (.get e p) args).Bare := ⟨bare, bareArgs⟩
    have rendered : (Expr.call (.get e p) args).render = .call (.grouping (Expr.get e p).render) args.render := by
      rw [Expr.render, Expr.takesCall, Bool.not_false, Bool.or_true]
      rfl
    have whole := called.compiles (rendered ▸ more) spells limits
    have pool : (Expr.call (.get e p) args).pool = (Expr.invoke e p args).pool := by
      rw [Expr.pool, Expr.pool, Expr.constants, Expr.constants, Expr.constants, List.append_assoc]
      rfl
    rw [Expr.script, pool, Expr.postOrder, Expr.postOrder] at whole
    simpa only [List.append_assoc, List.cons_append, List.nil_append] using whole
  · cases outcome : (compile source strings serial).outcome with
    | error ds => exact ⟨ds, rfl⟩
    | ok p =>
      obtain ⟨ds, reads, -, -⟩ := compile_emits outcome
      exact absurd reads (not_reads_target target)

/-- Three precedences with parentheses that are needed and one pair that is not, a property that is
called, and a target in parentheses. -/
theorem compile_postOrder_mixed :
    CompilesTo "a = -(b + c) * d.e(f)(g) and (h);"
      [.getGlobal 1, .getGlobal 2, .add, .negate, .getGlobal 3, .getGlobal 5, .invoke 4 1, .getGlobal 6,
        .call 1, .multiply, .jumpIfFalse 3, .pop, .getGlobal 7, .setGlobal 0, .pop, .pushNil, .ret] ∧
    CompilesTo "(a.b)(c);" [.getGlobal 0, .getProperty 1, .getGlobal 2, .call 1, .pop, .pushNil, .ret] ∧
    ∀ strings serial, ∃ ds, (compile "(a) = b;" strings serial).outcome = .error ds := by
  let one (x : String) : Expr .argumentList := .someArguments (.lastArgument (.name x))
  let sum : Expr .expression := .binary .plus (.name "b") (.name "c")
  let calls : Expr .expression := .call (.invoke (.name "d") "e" (one "f")) (one "g")
  let tree : Expr .expression := .assign "a" (.and (.binary .star (.unary .minus sum) calls) (.name "h"))
  let spelled : Expr .expression :=
    .assign "a" (.and (.binary .star (.unary .minus (.grouping sum)) calls) (.grouping (.name "h")))
  have bare : tree.Bare :=
    ⟨⟨⟨_, _, rfl⟩, ⟨⟨_, rfl⟩, ⟨_, _, rfl⟩, trivial, trivial⟩, ⟨trivial, trivial⟩, trivial⟩, trivial⟩
  have more : tree.render.Parenthesized spelled := .assign (.and (.refl _) (.around (.refl _)))
  have spells : spelled.SpelledBy "a = -(b + c) * d.e(f)(g) and (h);" := by
    unfold Expr.SpelledBy
    decide +kernel
  have limits : WithinLimits spelled.program :=
    ⟨by decide, by decide, by simp [spelled, sum, calls, one, Expr.program, Stmt.Fits, Expr.Fits, Expr.count,
      Expr.size, maxArity, maxDistance]⟩
  have first := (compile_postOrder _).1 tree spelled bare more spells limits
  have code : tree.script =
      [.getGlobal 1, .getGlobal 2, .add, .negate, .getGlobal 3, .getGlobal 5, .invoke 4 1, .getGlobal 6,
        .call 1, .multiply, .jumpIfFalse 3, .pop, .getGlobal 7, .setGlobal 0, .pop, .pushNil, .ret] := by
    decide +kernel
  rw [code] at first
  have limits' : WithinLimits (Expr.call (.grouping (.get (.name "a") "b")) (one "c")).program :=
    ⟨by decide, by decide, by simp [one, Expr.program, Stmt.Fits, Expr.Fits, Expr.count, maxArity]⟩
  refine ⟨first, ?_, (compile_postOrder _).2.2.2 (by decide +kernel)⟩
  exact (compile_postOrder _).2.2.1 (.name "a") "b" (one "c") _ trivial trivial (.refl _)
    (by unfold Expr.SpelledBy; decide +kernel) limits'

end Lox
