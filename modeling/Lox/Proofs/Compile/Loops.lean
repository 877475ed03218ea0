import Lox.Proofs.Compile.Accesses
import Lox.Proofs.Compile.SlotZero

/-!
# Loops with a variable of their own

A for loop that declares a variable has two places on the stack for it: the variable itself, which the condition and
the increment work on, and the copy above it, which the body works on and which is put back after each turn.  The
code of the loop stands in one piece in that of its function (`Prototype.HasLoop`), and control flow keeps to its
parts: from the body it comes to the end of the turn (`Prototype.HasLoop.body_flow`), and from there by the increment
and the condition to the next turn, or out of the loop (`Prototype.HasLoop.head_flow`).
-/

namespace Lox.Syntax

open Compile

/-! ## The loops of a program -/

/-- A for loop that declares a variable. -/
structure VariableLoop where
  name : String
  value : Option (Expr .expression)
  condition : Option (Expr .expression)
  increment : Option (Expr .expression)
  body : Stmt .statement

/-- The loops in a phrase that declare a variable, but not those in functions inside it, in the order in which they
start. -/
def Stmt.loops : {s : StmtSort} → Stmt s → List VariableLoop
  | _, .ifThen _ t => t.loops
  | _, .ifElse _ t e => t.loops ++ e.loops
  | _, .whileLoop _ body => body.loops
  | _, .forLoop (.var x value) c step body => ⟨x, value, c, step, body⟩ :: body.loops
  | _, .forLoop _ _ _ body => body.loops
  | _, .block ds => ds.loops
  | _, .statement s => s.loops
  | _, .declare d ds => d.loops ++ ds.loops
  | _, _ => []

/-- The loops in the body of a function that declare a variable. -/
def Function.loops (f : Function) : List VariableLoop := f.body.loops

end Lox.Syntax

namespace Lox

open Compile Syntax

/-- Where the parts of a loop with a variable are: the variable has a slot, and the copy of it the next one. -/
structure LoopPlace where
  slot : Nat
  /-- The start of the condition, or of what follows if there is none. -/
  head : Nat
  /-- The start of the increment, or else of the condition. -/
  again : Nat
  /-- The start of a turn, where the variable is copied; the body is two bytes further on. -/
  turn : Nat
  /-- The end of the body, where the copy is put back. -/
  finish : Nat

namespace LoopPlace

/-- The offsets of the body, with the one where it is over. -/
def Body (place : LoopPlace) (o : Nat) : Prop := place.turn + 2 ≤ o ∧ o ≤ place.finish

/-- The offsets of the condition and the increment, with the one where the next turn starts. -/
def Head (place : LoopPlace) (o : Nat) : Prop := place.head ≤ o ∧ o ≤ place.turn

/-- The offset that the loop is left to when the condition fails. -/
def exit (place : LoopPlace) : Nat := place.finish + 9

end LoopPlace

namespace Compile

/-! ## The code of a loop -/

/-- What a loop with a variable is compiled to: the locals around it, the variable and the copy of it, and the code of
the clauses and the body. -/
structure LoopCode where
  outer : List Local
  own : Local
  copy : Local
  condition : Option (List Instr)
  increment : Option (List Instr)
  body : List Item

namespace LoopCode

/-- The code of a turn. -/
def turn (c : LoopCode) : List Item := copyItems (c.own :: c.outer) c.outer.length c.copy c.body

/-- The code of the loop from the condition on. -/
def items (c : LoopCode) : List Item := loopItems (c.own :: c.outer) c.condition c.increment c.turn

/-- The code of the condition and the increment. -/
def head (c : LoopCode) : List Instr :=
  conditionCode c.increment (itemsSize c.turn) c.condition ++ incrementCode c.condition c.increment

/-- It is the code of a loop of the program: the clauses see the variable, and the body sees the copy of it. -/
structure Of (c : LoopCode) (Γ : Context) (l : VariableLoop) : Prop where
  named : c.own.name = l.name
  copyNamed : c.copy.name = l.name
  condition : ClauseEmits Γ (c.own :: c.outer) l.condition c.condition
  increment : ClauseEmits Γ (c.own :: c.outer) l.increment c.increment
  body : l.body.Emits Γ false (c.copy :: c.own :: c.outer) c.body (c.copy :: c.own :: c.outer)
  localsFit : c.outer.length + 2 ≤ maxOperands
  fits : LoopFits c.condition c.increment (itemsSize c.turn)
  properCondition : ClauseProper l.condition
  properIncrement : ClauseProper l.increment
  properBody : l.body.Proper
  rooted : Rooted c.outer

/-- The places of the parts, if the code starts at an offset. -/
def place (c : LoopCode) (o : Nat) : LoopPlace where
  slot := c.outer.length
  head := o
  again := o + if c.increment.isSome then conditionSize c.condition + 3 else 0
  turn := o + codeSize c.head
  finish := o + codeSize c.head + 2 + itemsSize c.body

end LoopCode

/-- In a row of items at an offset, the code of a loop stands at this place. -/
inductive LoopIn (Γ : Context) (o : Nat) (items : List Item) (l : VariableLoop) : LoopPlace → Prop where
  | intro {before c after} (split : items = before ++ (LoopCode.items c ++ after)) (code : c.Of Γ l) :
      LoopIn Γ o items l (c.place (o + itemsSize before))

/-- The code of loops stands in a row of items at an offset, in the order of the loops. -/
def LoopsIn (Γ : Context) (o : Nat) (items : List Item) (ls : List VariableLoop) : Prop :=
  ∃ places, List.Forall₂ (LoopIn Γ o items) ls places ∧ places.Pairwise (·.turn < ·.turn)

end Compile

/-- The code of a loop stands at a place in that of a function. -/
def Prototype.HasLoop (q : Prototype) (l : VariableLoop) (place : LoopPlace) : Prop :=
  ∃ Γ start items, Compiled q Γ start items ∧ LoopIn Γ 0 items l place

namespace Compile

variable {Γ : Context} {top : Bool} {L L' : List Local} {items items' : List Item} {l : VariableLoop} {o k : Nat}
    {i : Instr} {x : String} {ls ls' : List VariableLoop} {place : LoopPlace}

/-! ### Sizes -/

namespace LoopCode

variable (c : LoopCode)

lemma size_head : codeSize c.head = conditionSize c.condition + incrementSize c.increment := by
  have condition : itemsSize (under c.outer (conditionCode c.increment (itemsSize c.turn) c.condition)) = _ :=
    size_condition (itemsSize c.turn)
  have increment : itemsSize (under c.outer (incrementCode c.condition c.increment)) = _ := Pieced.size_increment
  rw [itemsSize, instrs_under] at condition increment
  rw [head, codeSize_append, condition, increment]

lemma size_turn : itemsSize c.turn = itemsSize c.body + 8 := by
  have exit : codeSize (exits [c.copy]) = 1 := by cases marked : c.copy.isCaptured <;> simp [exits, marked, Instr.size]
  simp only [itemsSize, turn, copyItems, instrs_append, instrs_under, codeSize_append, exit, codeSize_cons,
    codeSize_nil, Instr.size]
  omega

/-- The parts of the code, one after the other. -/
lemma items_eq : c.items =
    under (c.own :: c.outer) (c.head ++ [.getLocal (UInt8.ofNat c.outer.length)]) ++ (c.body ++
      (under (c.copy :: c.own :: c.outer)
          [.getLocal (UInt8.ofNat (c.outer.length + 1)), .setLocal (UInt8.ofNat c.outer.length), .pop] ++
        under (c.own :: c.outer) (exits [c.copy] ++
          .loop (UInt16.ofNat (backDistance c.condition c.increment (itemsSize c.turn))) ::
            exitCode c.condition))) := by
  simp only [items, loopItems, turn, copyItems, head, under, inScope_append, List.append_assoc, List.length_cons]

lemma size_items : codeSize c.head + itemsSize c.body + 11 ≤ itemsSize c.items := by
  have exit : codeSize (exits [c.copy]) = 1 := by cases marked : c.copy.isCaptured <;> simp [exits, marked, Instr.size]
  simp only [c.items_eq, itemsSize, instrs_append, instrs_under, codeSize_append, codeSize_cons, codeSize_nil, exit,
    Instr.size]
  omega

end LoopCode

/-! ### Loops in rows -/

/-- The parts of a loop are in the row, one after the other. -/
lemma LoopIn.bounds (h : LoopIn Γ o items l place) :
    o ≤ place.head ∧ place.head ≤ place.turn ∧ place.turn + 2 ≤ place.finish ∧
      place.exit ≤ o + itemsSize items := by
  obtain ⟨rfl, -⟩ := h
  next before c after =>
  have size := c.size_items
  simp only [LoopCode.place, LoopPlace.exit, itemsSize, instrs_append, codeSize_append] at size ⊢
  omega

lemma LoopIn.left (h : LoopIn Γ o items l place) (items' : List Item) : LoopIn Γ o (items ++ items') l place := by
  obtain ⟨rfl, code⟩ := h
  exact .intro (by rw [List.append_assoc, List.append_assoc]) code

lemma LoopIn.right (items : List Item) (h : LoopIn Γ (o + itemsSize items) items' l place) :
    LoopIn Γ o (items ++ items') l place := by
  obtain ⟨rfl, code⟩ := h
  next before c after =>
  have size : o + itemsSize items + itemsSize before = o + itemsSize (items ++ before) := by
    rw [itemsSize, itemsSize, itemsSize, instrs_append, codeSize_append, Nat.add_assoc]
  rw [size]
  exact .intro (List.append_assoc _ _ _).symm code

namespace LoopsIn

lemma nil (Γ : Context) (o : Nat) (items : List Item) : LoopsIn Γ o items [] := ⟨[], .nil, .nil⟩

lemma left (h : LoopsIn Γ o items ls) (items' : List Item) : LoopsIn Γ o (items ++ items') ls := by
  obtain ⟨places, stand, sorted⟩ := h
  exact ⟨places, stand.imp fun _ _ here => here.left items', sorted⟩

lemma right (items : List Item) (h : LoopsIn Γ (o + itemsSize items) items' ls) :
    LoopsIn Γ o (items ++ items') ls := by
  obtain ⟨places, stand, sorted⟩ := h
  exact ⟨places, stand.imp fun _ _ here => here.right items, sorted⟩

lemma framed (inner : ∀ o, LoopsIn Γ o items ls) : LoopsIn Γ o (Syntax.framed L items L') ls :=
  .right [_] (.left (inner _) [_])

/-- The loops are in the row. -/
lemma bounds {places : List LoopPlace} (stand : List.Forall₂ (LoopIn Γ o items) ls places) :
    ∀ p ∈ places, o ≤ p.head ∧ p.head ≤ p.turn ∧ p.turn < p.exit ∧ p.exit ≤ o + itemsSize items := by
  induction stand with
  | nil => exact List.forall_mem_nil _
  | cons here _ ih =>
    obtain ⟨lower, head, body, upper⟩ := here.bounds
    refine List.forall_mem_cons.2 ⟨⟨lower, head, ?_, upper⟩, ih⟩
    rw [LoopPlace.exit]
    omega

lemma append (first : LoopsIn Γ o items ls) (second : LoopsIn Γ (o + itemsSize items) items' ls') :
    LoopsIn Γ o (items ++ items') (ls ++ ls') := by
  obtain ⟨places, stand, sorted⟩ := first
  obtain ⟨places', stand', sorted'⟩ := second
  refine ⟨places ++ places', List.rel_append (stand.imp fun _ _ here => here.left items')
    (stand'.imp fun _ _ there => there.right items),
    List.pairwise_append.2 ⟨sorted, sorted', fun p here p' there => ?_⟩⟩
  obtain ⟨-, -, before, inside⟩ := bounds stand p here
  obtain ⟨lower, head, -⟩ := bounds stand' p' there
  omega

/-- A loop, and those in its body. -/
lemma loop {c : LoopCode} (code : c.Of Γ l) (inner : LoopsIn Γ (o + codeSize c.head + 2) c.body ls) :
    LoopsIn Γ o c.items (l :: ls) := by
  obtain ⟨places, stand, sorted⟩ := inner
  have own : LoopIn Γ o c.items l (c.place (o + itemsSize [])) := .intro (List.append_nil _).symm code
  have size : itemsSize (under (c.own :: c.outer) (c.head ++ [.getLocal (UInt8.ofNat c.outer.length)])) =
      codeSize c.head + 2 := by
    rw [itemsSize, instrs_under, codeSize_append]
    rfl
  refine ⟨c.place o :: places, .cons own (stand.imp fun _ _ here => ?_), List.pairwise_cons.2 ⟨fun p there => ?_,
    sorted⟩⟩
  · rw [c.items_eq]
    refine .right _ (.left ?_ _)
    rwa [size, ← Nat.add_assoc]
  · obtain ⟨lower, head, -⟩ := bounds stand p there
    show o + codeSize c.head < p.turn
    omega

end LoopsIn

end Compile

namespace Syntax

variable {Γ : Context} {top : Bool} {L L' : List Local} {items : List Item}

/-- The loops of a phrase stand in its code. -/
theorem Stmt.Emits.loopsIn {s : StmtSort} {t : Stmt s} (h : t.Emits Γ top L items L') (proper : t.Proper)
    (rooted : Rooted L) (o : Nat) : LoopsIn Γ o items t.loops := by
  induction h generalizing o with
  | ifThen _ _ _ ih => exact .framed fun o => .right _ (.left (ih proper.2 rooted _) _)
  | ifElse _ _ _ _ _ ih ih' =>
    refine .framed fun o => .right _ (.append (ih proper.2.1 rooted _) (.right _ (ih' proper.2.2 rooted _)))
  | whileLoop _ _ _ ih => exact .framed fun o => .right _ (.left (ih proper.2 rooted _) _)
  | forLoop clause _ _ _ _ ih =>
    cases clause <;> exact .framed fun o => .right _ (.right _ (.left (ih proper.2.2.2 rooted _) _))
  | @forVar Γ top L x value start v c cond step increment w body items clause named copyNamed condition advance inner
      localsFit fits ih =>
    obtain ⟨-, second, third, body_⟩ := proper
    let code : LoopCode := ⟨L, v, w, cond, increment, items⟩
    have own : code.Of Γ ⟨x, value, c, step, body⟩ :=
      ⟨named, copyNamed, condition, advance, inner, localsFit, fits, second, third, body_, rooted⟩
    exact .framed fun o => .right _ (.left (.loop own (ih body_ ((rooted.cons v).cons w) _)) _)
  | block _ ih => exact .framed fun o => .left (ih proper rooted _) _
  | statement _ ih => exact ih proper rooted _
  | declare first _ ih ih' =>
    exact .append (ih proper.1 rooted _) (ih' proper.2 (first.orderly proper.1 rooted).2 _)
  | _ => exact .nil _ _ _

/-- The loops of a function stand in its code. -/
theorem Implements.loops {further : List (List Capture)} {captures : List Capture} {q : Prototype} {f : Function}
    {start stop : List Local} (h : Implements further captures q f Γ start items stop) :
    ∃ places, List.Forall₂ q.HasLoop f.loops places ∧ places.Pairwise (·.turn < ·.turn) := by
  obtain ⟨places, stand, sorted⟩ := (h.emits.loopsIn h.proper h.compiled.rooted 0).left _
  exact ⟨places, stand.imp fun _ _ here => ⟨Γ, start, _, h.compiled, here⟩, sorted⟩

end Syntax

/-! ## Control flow in a loop -/

namespace Syntax

variable {Γ : Context} {top : Bool} {L L' : List Local} {items items' : List Item} {n n' : Nat} {code : List Instr}

/-- An expression does not leave its function. -/
lemma Expr.Emits.ret_notMem {s : ExprSort} {e : Expr s} (h : e.Emits Γ L code) : .ret ∉ code := by
  have read : ∀ place : Access, .ret ≠ place.read := fun place => by cases place <;> simp [Access.read]
  have write : ∀ place : Access, .ret ≠ place.write := fun place => by cases place <;> simp [Access.write]
  induction h with
  | @literal kind i word => cases kind <;> cases word <;> simp
  | @unary op i _ _ word _ ih => cases op <;> cases word <;> simpa using ih
  | @binary op _ is _ _ _ _ word _ _ ih ih' =>
    have others : .ret ∉ is := by cases op <;> cases word <;> simp
    simp [ih, ih', others]
  | _ => simp_all

lemma clause_ret_notMem {c : Option (Expr .expression)} {code : Option (List Instr)} (h : ClauseEmits Γ L c code) :
    ∀ is ∈ code, .ret ∉ is := by
  cases h with
  | none => nofun
  | some inner =>
    rintro _ ⟨⟩
    exact inner.ret_notMem

/-- At least so many variables are in scope at all items. -/
def Deep (n : Nat) (items : List Item) : Prop := ∀ item ∈ items, n ≤ (itemScope item).length

namespace Deep

lemma nil (n : Nat) : Deep n [] := List.forall_mem_nil _

lemma append (first : Deep n items) (second : Deep n items') : Deep n (items ++ items') :=
  List.forall_mem_append.2 ⟨first, second⟩

lemma mono (h : Deep n items) (fewer : n' ≤ n) : Deep n' items := fun item there => fewer.trans (h item there)

lemma under (enough : n ≤ L.length) (is : List Instr) : Deep n (Syntax.under L is) := by
  intro item there
  obtain ⟨i, -, rfl⟩ := List.mem_map.1 there
  exact enough.trans_eq (length_namesOf L).symm

lemma framed (enough : n ≤ L.length) (inner : Deep n items) (enough' : n ≤ L'.length) :
    Deep n (Syntax.framed L items L') := by
  have boundary : ∀ {L : List Local}, n ≤ L.length → Deep n [.boundary (namesOf L)] := fun {L} enough =>
    List.forall_mem_singleton.2 (enough.trans_eq (length_namesOf L).symm)
  exact (boundary enough).append (inner.append (boundary enough'))

lemma loop {c step : Option (List Instr)} (enough : n ≤ L.length) (inner : Deep n items) :
    Deep n (loopItems L c step items) :=
  (under enough _).append (inner.append (under enough _))

end Deep

/-- The variables around a phrase are in scope in all of its code. -/
theorem Stmt.Emits.deep {s : StmtSort} {t : Stmt s} (h : t.Emits Γ top L items L') : Deep L.length items := by
  induction h with
  | print | expression | retNone | retSome => exact .framed le_rfl (.under le_rfl _) le_rfl
  | ifThen _ _ _ ih => exact .framed le_rfl (.append (.under le_rfl _) (ih.append (.under le_rfl _))) le_rfl
  | ifElse _ _ _ _ _ ih ih' =>
    exact .framed le_rfl (.append (.under le_rfl _) (ih.append (.append (.under le_rfl _) ih'))) le_rfl
  | whileLoop _ _ _ ih => exact .framed le_rfl (.loop le_rfl ih) le_rfl
  | forLoop _ _ _ _ _ ih => exact .framed le_rfl (.append (.under le_rfl _) (.loop le_rfl ih)) le_rfl
  | @forVar _ _ L _ _ _ _ _ _ _ _ _ _ _ _ _ _ _ _ _ _ _ ih =>
    have one : L.length ≤ L.length + 1 := Nat.le_succ _
    have two : L.length ≤ L.length + 1 + 1 := one.trans (Nat.le_succ _)
    exact .framed le_rfl (.append (.under le_rfl _) (.append (.loop one (.append (.under one _)
      (.append (ih.mono two) (.append (.under two _) (.under one _))))) (.under le_rfl _))) le_rfl
  | block _ ih => exact .framed le_rfl (ih.append (.under le_rfl _)) le_rfl
  | statement _ ih => exact ih
  | var _ binds | function binds => exact .framed le_rfl (.under le_rfl _) binds.length_le
  | cls _ binds _ _ ih =>
    have more := binds.length_le
    exact .framed le_rfl (.append (.under le_rfl _) (.append (.under more _)
      (.append (ih.mono more) (.under more _)))) more
  | subclass _ binds _ _ _ _ _ _ _ ih =>
    have more := binds.length_le
    have further := more.trans (Nat.le_succ _)
    exact .framed le_rfl (.append (.under le_rfl _) (.append (.under more _) (.append (.under further _)
      (.append (ih.mono further) (.append (.under further _) (.under more _)))))) more
  | noDeclarations | noMethods => exact .nil _
  | declare first _ ih ih' => exact ih.append (ih'.mono first.length_le)
  | method _ _ _ _ _ _ _ _ ih' => exact .append (.under le_rfl _) ih'

/-- A statement stands between two boundaries. -/
lemma Stmt.Emits.framed {t : Stmt .statement} (h : t.Emits Γ top L items L') :
    L' = L ∧ ∃ inner, items = Syntax.framed L inner L := by
  cases h <;> exact ⟨rfl, _, rfl⟩

end Syntax

namespace Compile

variable {Γ : Context} {q : Prototype} {start : List Local} {o k t : Nat} {i : Instr} {l : VariableLoop}

/-- An instruction that control flow comes to is one of the part of the code where it is. -/
lemma Compiled.within {before items after : List Item} (h : Compiled q Γ start (before ++ (items ++ after)))
    (reaches : Reaches q o k) (decoded : q.chunk.instrAt? o = some i) (lower : itemsSize before ≤ o)
    (upper : o < itemsSize before + itemsSize items) :
    ∃ before' scope after', items = before' ++ .instr i scope :: after' ∧ o = itemsSize before + itemsSize before' ∧
      scope.length + i.pops ≤ k := by
  obtain ⟨before', i', scope, after', split, rfl, decoded'⟩ := h.disciplined.stays reaches
  obtain rfl := Option.some.inj (decoded.symm.trans decoded')
  have enough := h.disciplined.pops split reaches
  have positive := i.size_pos
  rcases append_eq_cons_cases split with ⟨between, rfl, -⟩ | ⟨between, rfl, inside⟩
  · simp only [itemsSize, instrs_append, instrs_instr, codeSize_append, codeSize_cons] at lower
    omega
  · rcases append_eq_cons_cases inside with ⟨between', rfl, -⟩ | ⟨between', rfl, -⟩
    · refine ⟨between, scope, between', rfl, ?_, enough⟩
      rw [itemsSize, itemsSize, itemsSize, instrs_append, codeSize_append]
    · simp only [itemsSize, instrs_append, codeSize_append] at upper
      omega

namespace LoopCode

variable {c : LoopCode}

/-- The name of the variable means the copy in the body, and the variable itself in the condition and the increment. -/
lemma Of.finds (code : c.Of Γ l) :
    findLocal? l.name (c.copy :: c.own :: c.outer) = some (c.outer.length + 1, c.copy) ∧
      findLocal? l.name (c.own :: c.outer) = some (c.outer.length, c.own) :=
  ⟨findLocal?_head code.copyNamed, findLocal?_head code.named⟩

/-- Jumps in the condition and the increment stay there, or lead out of the loop. -/
lemma Of.jumps (code : c.Of Γ l) (jumps : JumpsTo o c.head t) : (c.place o).Head t ∨ t = (c.place o).exit := by
  have rooted := code.rooted.cons c.own
  have test := clause_orderly code.condition code.properCondition rooted
  have advance := clause_orderly code.increment code.properIncrement rooted
  obtain ⟨exit, increment, -⟩ := code.fits
  have size := c.size_head
  have turn := c.size_turn
  have place : (c.place o).exit = o + codeSize c.head + 2 + itemsSize c.body + 9 := rfl
  have here : (c.place o).Head t ↔ o ≤ t ∧ t ≤ o + codeSize c.head := Iff.rfl
  have first : codeSize (conditionCode c.increment (itemsSize c.turn) c.condition) = conditionSize c.condition := by
    have size : itemsSize (under c.outer (conditionCode c.increment (itemsSize c.turn) c.condition)) = _ :=
      size_condition (itemsSize c.turn)
    rwa [itemsSize, instrs_under] at size
  rw [here, place]
  rw [head, jumpsTo_append, first] at jumps
  rcases jumps with jumps | jumps
  · cases condition : c.condition with
    | none =>
      rw [condition] at jumps
      exact jumps.elim
    | some is =>
      rw [condition] at jumps size exit test
      rw [conditionSize] at size
      rcases jumpsTo_append.1 jumps with jumps | leads | nothing
      · have inside := (test is rfl).jumps jumps
        omega
      · have far := jump_leads leads (exit rfl)
        rw [Instr.size] at far
        omega
      · exact (nothing.elim id id).elim
  · cases step : c.increment with
    | none =>
      rw [step] at jumps
      exact jumps.elim
    | some is =>
      rw [step] at jumps size increment advance
      rw [incrementSize] at size
      have fits := increment is rfl
      rcases jumps with leads | jumps
      · have far := jump_leads leads (by omega)
        rw [Instr.size] at far
        omega
      · rcases jumpsTo_append.1 jumps with jumps | pop | leads | nothing
        · have inside := (advance is rfl).jumps jumps
          rw [Instr.size] at inside
          omega
        · exact pop.elim
        · have far := loop_leads leads fits
          simp only [Instr.size] at far
          omega
        · exact nothing.elim

/-- The condition and the increment do not leave the function. -/
lemma Of.ret_notMem (code : c.Of Γ l) : .ret ∉ c.head := by
  have test := clause_ret_notMem code.condition
  have advance := clause_ret_notMem code.increment
  rw [head, List.mem_append, not_or]
  constructor
  · cases condition : c.condition with
    | none => exact List.not_mem_nil
    | some is => simpa [conditionCode] using test is condition
  · cases step : c.increment with
    | none => exact List.not_mem_nil
    | some is => simpa [incrementCode] using advance is step

end LoopCode

end Compile

/-- The instructions around the body of a turn: the variable is copied, and in the end the copy is put back and leaves
the stack, before the loop starts again. -/
structure Prototype.CodesTurn (q : Prototype) (place : LoopPlace) : Prop where
  fits : place.slot + 2 ≤ maxOperands
  copies : q.chunk.instrAt? place.turn = some (.getLocal (UInt8.ofNat place.slot))
  reads : q.chunk.instrAt? place.finish = some (.getLocal (UInt8.ofNat (place.slot + 1)))
  writes : q.chunk.instrAt? (place.finish + 2) = some (.setLocal (UInt8.ofNat place.slot))
  drops : q.chunk.instrAt? (place.finish + 4) = some .pop
  leaves : ∃ exit, q.chunk.instrAt? (place.finish + 5) = some exit ∧ (exit = .pop ∨ exit = .closeUpvalue)
  back : ∃ distance, q.chunk.instrAt? (place.finish + 6) = some (.loop distance) ∧
    place.again + distance.toNat = place.finish + 9
  again : place.Head place.again

namespace Prototype.HasLoop

variable {q : Prototype} {l : VariableLoop} {place : LoopPlace} {o k t : Nat} {i : Instr}

/-- The condition and the increment are in the code of the function. -/
lemma head_within (h : q.HasLoop l place) :
    ∃ (c : LoopCode) (Γ : Context) (start : List Local) (before after : List Item), c.Of Γ l ∧
      place = c.place (itemsSize before) ∧ Compiled q Γ start (before ++ (under (c.own :: c.outer) c.head ++ after)) := by
  obtain ⟨Γ, start, _, compiled, ⟨rfl, code⟩⟩ := h
  next before c after =>
  rw [c.items_eq, under_append, List.append_assoc, List.append_assoc] at compiled
  exact ⟨c, Γ, start, before, _, code, by rw [Nat.zero_add], compiled⟩

/-- The body is in the code of the function. -/
lemma body_within (h : q.HasLoop l place) :
    ∃ (c : LoopCode) (Γ : Context) (start : List Local) (before after : List Item), c.Of Γ l ∧
      place.slot = c.outer.length ∧ place.turn + 2 = itemsSize before ∧
      place.finish = itemsSize before + itemsSize c.body ∧ Compiled q Γ start (before ++ (c.body ++ after)) := by
  obtain ⟨Γ, start, _, compiled, ⟨rfl, code⟩⟩ := h
  next before c after =>
  rw [c.items_eq, List.append_assoc, List.append_assoc, ← List.append_assoc] at compiled
  have size : itemsSize (before ++ under (c.own :: c.outer) (c.head ++ [.getLocal (UInt8.ofNat c.outer.length)])) =
      itemsSize before + codeSize c.head + 2 := by
    rw [itemsSize, instrs_append, instrs_under, codeSize_append, codeSize_append, ← Nat.add_assoc]
    rfl
  refine ⟨c, Γ, start, _, _, code, rfl, ?_, ?_, compiled⟩ <;> rw [size, LoopCode.place, Nat.zero_add]

/-- The body starts after the copy is made. -/
lemma starts (h : q.HasLoop l place) : place.Body (place.turn + 2) := by
  obtain ⟨c, Γ, start, before, after, code, slot, starts, ends, compiled⟩ := h.body_within
  exact ⟨Nat.le_refl _, by omega⟩

/-- In the body control flow stays, with the variable and the copy below all that is taken off the stack, until the
body is over. -/
lemma body_flow (h : q.HasLoop l place) (reaches : Reaches q o k) (decoded : q.chunk.instrAt? o = some i)
    (body : place.Body o) (inside : o ≠ place.finish) :
    place.slot + 2 + i.pops ≤ k ∧ place.Body (o + i.size) ∧ ∀ t, i.Leads (o + i.size) t → place.Body t := by
  obtain ⟨c, Γ, start, before, after, code, slot, starts, ends, compiled⟩ := h.body_within
  unfold LoopPlace.Body at body ⊢
  obtain ⟨before', scope, after', split, rfl, enough⟩ := compiled.within reaches decoded (by omega) (by omega)
  have deep : c.outer.length + 2 ≤ scope.length :=
    code.body.deep (.instr i scope) (split ▸ List.mem_append_right _ List.mem_cons_self)
  have size : itemsSize c.body = itemsSize before' + (i.size + itemsSize after') := by
    rw [split, itemsSize, instrs_append, codeSize_append]
    rfl
  refine ⟨by omega, by omega, fun t leads => ?_⟩
  have orderly := (code.body.orderly code.properBody ((code.rooted.cons c.own).cons c.copy)).1
  have jumps : JumpsTo (itemsSize before) (instrs c.body) t := by
    rw [split, instrs_append]
    exact .intro leads
  have stays : itemsSize before ≤ t ∧ t ≤ itemsSize before + itemsSize c.body := orderly.jumps jumps
  omega

/-- From the condition and the increment control flow comes to the next turn or out of the loop, with the variable
below all that is taken off the stack. -/
lemma head_flow (h : q.HasLoop l place) (reaches : Reaches q o k) (decoded : q.chunk.instrAt? o = some i)
    (head : place.Head o) (inside : o ≠ place.turn) :
    place.slot + 1 + i.pops ≤ k ∧ i ≠ .ret ∧ place.Head (o + i.size) ∧
      ∀ t, i.Leads (o + i.size) t → place.Head t ∨ t = place.exit := by
  obtain ⟨c, Γ, start, before, after, code, rfl, compiled⟩ := h.head_within
  have size : itemsSize (under (c.own :: c.outer) c.head) = codeSize c.head := by rw [itemsSize, instrs_under]
  have upper : o < itemsSize before + codeSize c.head := Nat.lt_of_le_of_ne head.2 inside
  obtain ⟨before', scope, after', split, rfl, enough⟩ :=
    compiled.within reaches decoded head.1 (by rwa [size])
  have among : .instr i scope ∈ under (c.own :: c.outer) c.head := split ▸ List.mem_append_right _ List.mem_cons_self
  have deep : c.outer.length + 1 ≤ scope.length := Deep.under le_rfl _ _ among
  have code' : c.head = instrs before' ++ i :: instrs after' := by
    rw [← instrs_under (c.own :: c.outer) c.head, split, instrs_append]
    rfl
  refine ⟨?_, ?_, ⟨?_, ?_⟩, fun t leads => ?_⟩
  · show c.outer.length + 1 + i.pops ≤ k
    omega
  · rintro rfl
    exact code.ret_notMem (code' ▸ List.mem_append_right _ List.mem_cons_self)
  · show itemsSize before ≤ itemsSize before + itemsSize before' + i.size
    omega
  · have size' := congrArg codeSize code'
    rw [codeSize_append, codeSize_cons] at size'
    show itemsSize before + itemsSize before' + i.size ≤ itemsSize before + codeSize c.head
    unfold itemsSize
    omega
  · refine code.jumps ?_
    rw [code']
    exact .intro leads

/-- The instructions before and after the body of a turn. -/
lemma codesTurn (h : q.HasLoop l place) : q.CodesTurn place := by
  obtain ⟨Γ, start, _, compiled, ⟨rfl, code⟩⟩ := h
  next before c after =>
  obtain ⟨exit, leaves, kind⟩ : ∃ exit, exits [c.copy] = [exit] ∧ (exit = .pop ∨ exit = .closeUpvalue) := by
    cases marked : c.copy.isCaptured <;> simp [exits, marked]
  have size : exit.size = 1 := by rcases kind with rfl | rfl <;> rfl
  let copies : Instr := .getLocal (UInt8.ofNat c.outer.length)
  let reads : Instr := .getLocal (UInt8.ofNat (c.outer.length + 1))
  let writes : Instr := .setLocal (UInt8.ofNat c.outer.length)
  let distance := UInt16.ofNat (backDistance c.condition c.increment (itemsSize c.turn))
  let front := instrs before ++ c.head
  let body := front ++ copies :: instrs c.body
  have whole : instrs (before ++ (c.items ++ after)) =
      body ++ ([reads, writes, .pop, exit, .loop distance] ++ (exitCode c.condition ++ instrs after)) := by
    simp only [body, front, c.items_eq, instrs_append, instrs_under, leaves, List.append_assoc, List.cons_append,
      List.nil_append]
    rfl
  have there : ∀ {row i rest o}, instrs (before ++ (c.items ++ after)) = row ++ i :: rest → codeSize row = o →
      q.chunk.instrAt? o = some i := fun split place => place ▸ compiled.decoded split
  have first : instrs (before ++ (c.items ++ after)) = front ++ copies :: _ :=
    whole.trans (List.append_assoc front (copies :: instrs c.body) _)
  have later : ∀ (row : List Instr) {i rest}, [reads, writes, .pop, exit, .loop distance] = row ++ i :: rest →
      q.chunk.instrAt? (codeSize body + codeSize row) = some i := by
    intro row i rest split
    have split : instrs (before ++ (c.items ++ after)) =
        (body ++ row) ++ i :: (rest ++ (exitCode c.condition ++ instrs after)) := by
      rw [whole, split]
      simp only [List.append_assoc, List.cons_append]
    exact there split (codeSize_append _ _)
  have start : codeSize front = itemsSize before + codeSize c.head := codeSize_append _ _
  have finish : (c.place (0 + itemsSize before)).finish = codeSize body := by
    show 0 + itemsSize before + codeSize c.head + 2 + itemsSize c.body = codeSize (front ++ copies :: instrs c.body)
    rw [codeSize_append, start, codeSize_cons]
    show _ = _ + (2 + itemsSize c.body)
    omega
  have far : distance.toNat = backDistance c.condition c.increment (itemsSize c.turn) := distance_toNat code.fits.back
  have turn := c.size_turn
  have head := c.size_head
  refine ⟨code.localsFit, there first ?_, ?_, ?_, ?_, ⟨exit, ?_, kind⟩, ⟨distance, ?_, ?_⟩, ?_⟩
  · rw [start, LoopCode.place, Nat.zero_add]
  · rw [finish]
    exact later [] rfl
  · rw [finish]
    exact later [reads] rfl
  · rw [finish]
    exact later [reads, writes] rfl
  · rw [finish]
    exact later [reads, writes, .pop] rfl
  · rw [finish]
    have row := later [reads, writes, .pop, exit] rfl
    rw [codeSize_cons, codeSize_cons, codeSize_cons, codeSize_cons, size] at row
    exact row
  · simp only [LoopCode.place, far]
    cases step : c.increment with
    | none =>
      rw [step] at head
      simp only [backDistance, incrementSize, Option.isSome_none, Bool.false_eq_true, if_false] at head ⊢
      omega
    | some is =>
      rw [step] at head
      simp only [backDistance, incrementSize, Option.isSome_some, if_true] at head ⊢
      omega
  · simp only [LoopCode.place, LoopPlace.Head]
    cases step : c.increment with
    | none =>
      simp only [Option.isSome_none, Bool.false_eq_true, if_false]
      omega
    | some is =>
      rw [step] at head
      simp only [incrementSize, Option.isSome_some, if_true] at head ⊢
      omega

/-- Where the turn starts there is the variable on top, and in the body and at its end the copy of it. -/
lemma heights (h : q.HasLoop l place) :
    (∀ k, Reaches q place.turn k → k = place.slot + 1) ∧ (∀ k, Reaches q (place.turn + 2) k → k = place.slot + 2) ∧
      ∀ k, Reaches q place.finish k → k = place.slot + 2 := by
  obtain ⟨c, Γ, start, before, after, code, slot, starts, ends, compiled⟩ := h.body_within
  obtain ⟨-, inner, framed⟩ := code.body.framed
  have size : itemsSize c.body = itemsSize inner := by rw [framed, itemsSize, instrs_framed]
  have boundaries : ∀ {row scope rest k}, before ++ (c.body ++ after) = row ++ .boundary scope :: rest →
      Reaches q (itemsSize row) k → k = scope.length := compiled.disciplined.boundaries
  have body : ∀ k, Reaches q (place.turn + 2) k → k = place.slot + 2 := by
    intro k reaches
    rw [starts] at reaches
    rw [framed] at boundaries
    rw [boundaries rfl reaches, length_namesOf, slot]
    rfl
  have finish : ∀ k, Reaches q place.finish k → k = place.slot + 2 := by
    intro k reaches
    have row : before ++ (c.body ++ after) = before ++ .boundary (namesOf (c.copy :: c.own :: c.outer)) :: inner ++
        .boundary (namesOf (c.copy :: c.own :: c.outer)) :: after := by
      simp only [framed, Syntax.framed, List.append_assoc, List.cons_append, List.nil_append]
    have place_ : place.finish = itemsSize (before ++ .boundary (namesOf (c.copy :: c.own :: c.outer)) :: inner) := by
      rw [ends, size, itemsSize, itemsSize, itemsSize, instrs_append, instrs_boundary, codeSize_append]
    rw [place_] at reaches
    rw [boundaries row reaches, length_namesOf, slot]
    rfl
  refine ⟨fun k reaches => ?_, body, finish⟩
  have next := body _ (.step reaches h.codesTurn.copies (List.mem_singleton.2 rfl))
  exact Nat.succ_injective next

end Prototype.HasLoop

end Lox
