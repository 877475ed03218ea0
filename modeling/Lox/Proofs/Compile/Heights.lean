import Lox.Proofs.Compile.Format

/-!
# The height of the stack

Every offset that control flow can reach has one height of the stack, whichever way leads there
(`Disciplined.agree`).  `Reaches` follows the code from the entry of a function, with what each
instruction takes off and puts on; the record of the compilation, the items, tells which variables
were in scope at each instruction and between statements.

Nothing below the variables in scope is ever taken off.  The only instruction that looks at one of
them is that for a superclass, which finds it in the innermost one, the hidden local of that name.
-/

namespace Lox

/-! ## Control flow -/

/-- The offsets that an instruction leads to, where `next` is the one after it. -/
def Instr.successors (next : Nat) : Instr → List Nat
  | .jump distance => [next + distance.toNat]
  | .jumpIfFalse distance => [next, next + distance.toNat]
  | .loop distance => [next - distance.toNat]
  | .ret => []
  | _ => [next]

/-- Control flow in the code of a function reaches an offset with so many values on the stack, from
slot zero on.  In the beginning these are the callee and its arguments. -/
inductive Reaches (p : Prototype) : Nat → Nat → Prop where
  | entry : Reaches p 0 (1 + p.arity.toNat)
  | step {o h i o'} (here : Reaches p o h) (decoded : p.chunk.instrAt? o = some i)
      (leads : o' ∈ i.successors (o + i.size)) : Reaches p o' (h - i.pops + i.pushes)

lemma Flows.height {T : Surroundings} {E : Shapes} {next o : Nat} {σ : Shape} {i : Instr}
    (flows : Flows T E next σ i) (leads : o ∈ i.successors next) :
    ∃ τ, E o = some τ ∧ τ.height = σ.height - i.pops + i.pushes := by
  have goes : ∀ {p υ}, Goes E p υ → ∃ τ, E p = some τ ∧ τ.height = υ.height := by
    rintro p υ ⟨τ, there, refines⟩
    exact ⟨τ, there, refines.height.symm⟩
  cases i with
  | jump distance | loop distance =>
    rw [List.mem_singleton.1 leads]
    first | exact goes flows | exact goes flows.2
  | jumpIfFalse distance =>
    have either : o ∈ [next, next + distance.toNat] := leads
    rw [List.mem_cons, List.mem_singleton] at either
    rcases either with rfl | rfl
    · exact goes flows.2.2
    · exact goes flows.2.1
  | ret => exact absurd leads List.not_mem_nil
  | _ =>
    obtain ⟨υ, exec, flows⟩ := flows
    obtain rfl := List.mem_singleton.1 leads
    rw [← exec.height.2]
    exact goes flows

/-! ## The discipline -/

/-- Operands that are slots, in a function whose stack has so many values, at an instruction with
these variables in scope, with these items around it.  A closure may capture the slot that it will
have itself: then it becomes the variable of its own name. -/
def SlotsFit (p : Prototype) (height : Nat) (scope : List String) (after : List Item) :
    Instr → Prop
  | .getLocal slot | .setLocal slot => slot.toNat < height
  | .closure index captures => ∀ capture ∈ captures, capture.isLocal = true →
    capture.index.toNat < height ∨
      capture.index.toNat = height ∧ ∃ q after', after = .boundary (q.name :: scope) :: after' ∧
        p.chunk.constants[index.toNat]? = some (.prototype q)
  | _ => True

/-- The stack discipline of a function, whose items are the record of its compilation. -/
structure Disciplined (p : Prototype) (items : List Item) : Prop where
  code : p.chunk.code.toList = bytes (instrs items)
  /-- All ways to an offset agree about the height. -/
  agree : ∀ {o h h'}, Reaches p o h → Reaches p o h' → h = h'
  /-- Control flow stays in the code. -/
  stays : ∀ {o h}, Reaches p o h → ∃ before i scope after,
    items = before ++ .instr i scope :: after ∧ o = itemsSize before ∧
      p.chunk.instrAt? o = some i
  /-- No variable in scope is taken off the stack. -/
  pops : ∀ {before i scope after h}, items = before ++ .instr i scope :: after →
    Reaches p (itemsSize before) h → scope.length + i.pops ≤ h
  /-- No variable in scope is looked at as an operand, except that a superclass is found in the
  innermost one. -/
  reach : ∀ {before i scope after h}, items = before ++ .instr i scope :: after →
    Reaches p (itemsSize before) h → scope.length + i.reach ≤ h ∨
      i = .inherit ∧ scope.head? = some "super" ∧ h = scope.length + 1
  /-- Slot zero is no operand at all. -/
  slotZero : ∀ {before i scope after h}, items = before ++ .instr i scope :: after →
    Reaches p (itemsSize before) h → i.reach < h
  slots : ∀ {before i scope after h}, items = before ++ .instr i scope :: after →
    Reaches p (itemsSize before) h → SlotsFit p h scope after i
  /-- Between statements there are the variables in scope and nothing else. -/
  boundaries : ∀ {before scope after h}, items = before ++ .boundary scope :: after →
    Reaches p (itemsSize before) h → h = scope.length

end Lox

namespace Lox.Syntax

open Compile

variable {Γ Γ' : Context} {L L' : List Local} {items items' : List Item} {zero : String}

section Lengths

variable {top : Bool} {x : String} {code : List Instr}

lemma Binds.length_le (h : Binds Γ L x top code L') : L.length ≤ L'.length := by
  cases h with
  | global => exact Nat.le_refl _
  | slot => exact Nat.le_succ _

/-- Statements declare variables; they take none away. -/
lemma Stmt.Emits.length_le {s : StmtSort} {t : Stmt s} (h : t.Emits Γ top L items L') : L.length ≤ L'.length := by
  induction h with
  | var _ binds | function binds => exact binds.length_le
  | cls _ binds | subclass _ binds => exact binds.length_le
  | declare _ _ ih ih' => exact Nat.le_trans ih ih'
  | _ => exact Nat.le_refl _

end Lengths

/-! ## Slot zero and closures -/

/-- The variables in scope at an item. -/
def itemScope : Item → List String
  | .instr _ scope | .boundary scope => scope

/-- A local that a closure captures is in scope, or else the closure stands between statements and
is the variable that it captures. -/
def CapturesInScope (Γ : Context) (items : List Item) : Prop :=
  ∀ before index captures scope after,
    items = before ++ .instr (.closure index captures) scope :: after →
    ∀ capture ∈ captures, capture.isLocal = true → capture.index.toNat < scope.length ∨
      capture.index.toNat = scope.length ∧ ∃ before' q after',
        before = before' ++ [.boundary scope] ∧ after = .boundary (q.name :: scope) :: after' ∧
        Γ.constants[index.toNat]? = some (.prototype q)

/-- All items have slot zero in scope, and closures capture what is in scope. -/
structure Tidy (Γ : Context) (zero : String) (items : List Item) : Prop where
  slotZero : ∀ item ∈ items, (itemScope item).getLast? = some zero
  captures : CapturesInScope Γ items

/-- Does the instruction make a closure? -/
def makesClosure : Instr → Bool
  | .closure _ _ => true
  | _ => false

/-- None of the instructions makes a closure. -/
def NoClosures (is : List Instr) : Prop := ∀ i ∈ is, makesClosure i = false

lemma noClosures_nil : NoClosures [] := fun _ there => absurd there List.not_mem_nil

lemma NoClosures.cons {i : Instr} {is : List Instr} (first : makesClosure i = false)
    (rest : NoClosures is) : NoClosures (i :: is) :=
  List.forall_mem_cons.2 ⟨first, rest⟩

lemma NoClosures.append {is js : List Instr} (first : NoClosures is) (second : NoClosures js) :
    NoClosures (is ++ js) :=
  List.forall_mem_append.2 ⟨first, second⟩

lemma noClosures_read (place : Access) : NoClosures [place.read] := by
  cases place <;> exact .cons rfl noClosures_nil

lemma noClosures_write (place : Access) : NoClosures [place.write] := by
  cases place <;> exact .cons rfl noClosures_nil

/-- A row of items that is divided in two ways. -/
lemma append_eq_cons_cases {A B before after : List Item} {c : Item}
    (split : A ++ B = before ++ c :: after) :
    (∃ between, A = before ++ c :: between ∧ after = between ++ B) ∨
      ∃ between, before = A ++ between ∧ B = between ++ c :: after := by
  rcases List.append_eq_append_iff.1 split with ⟨between, first, second⟩ | ⟨between, first, second⟩
  · exact .inr ⟨between, first, second⟩
  · cases between with
    | nil => exact .inr ⟨[], by rw [first, List.append_nil, List.append_nil], second.symm⟩
    | cons d between =>
      obtain ⟨rfl, rest⟩ := List.cons.inj second
      exact .inl ⟨between, first, rest⟩

namespace Tidy

lemma nil (Γ : Context) (zero : String) : Tidy Γ zero [] :=
  ⟨fun _ there => absurd there List.not_mem_nil, fun _ _ _ _ _ split =>
    absurd split.symm (List.append_ne_nil_of_right_ne_nil _ (List.cons_ne_nil _ _))⟩

lemma append (first : Tidy Γ zero items) (second : Tidy Γ zero items') :
    Tidy Γ zero (items ++ items') := by
  refine ⟨fun item there => ?_, ?_⟩
  · rcases List.mem_append.1 there with there | there
    · exact first.slotZero item there
    · exact second.slotZero item there
  · intro before index captures scope after split capture there direct
    rcases append_eq_cons_cases split with ⟨between, here, rest⟩ | ⟨between, rest, here⟩
    · rcases first.captures _ _ _ _ _ here capture there direct with inner | ⟨own, before', q, after',
        stands, becomes, entry⟩
      · exact .inl inner
      · exact .inr ⟨own, before', q, after' ++ items', stands, by rw [rest, becomes]; rfl, entry⟩
    · rcases second.captures _ _ _ _ _ here capture there direct with inner | ⟨own, before', q,
        after', stands, becomes, entry⟩
      · exact .inl inner
      · exact .inr ⟨own, items ++ before', q, after',
          by rw [rest, stands, List.append_assoc], becomes, entry⟩

lemma under (last : (namesOf L).getLast? = some zero) {is : List Instr} (plain : NoClosures is) :
    Tidy Γ zero (under L is) := by
  refine ⟨fun item there => ?_, ?_⟩
  · obtain ⟨i, -, rfl⟩ := List.mem_map.1 there
    exact last
  · intro before index captures scope after split
    have there : Item.instr (.closure index captures) scope ∈ Syntax.under L is := by
      rw [split]
      exact List.mem_append_right _ List.mem_cons_self
    obtain ⟨i, among, same⟩ := List.mem_map.1 there
    obtain ⟨rfl, -⟩ := Item.instr.inj same
    cases plain _ among

lemma boundary (last : (namesOf L).getLast? = some zero) :
    Tidy Γ zero [.boundary (namesOf L)] := by
  refine ⟨fun item there => ?_, ?_⟩
  · rw [List.mem_singleton.1 there]
    exact last
  · intro before index captures scope after split
    cases before with
    | nil => cases (List.cons.inj split).1
    | cons item before =>
      exact absurd (List.cons.inj split).2.symm
        (List.append_ne_nil_of_right_ne_nil _ (List.cons_ne_nil _ _))

lemma framed (first : (namesOf L).getLast? = some zero) (inner : Tidy Γ zero items)
    (last : (namesOf L').getLast? = some zero) : Tidy Γ zero (framed L items L') :=
  (boundary first).append (inner.append (boundary last))

end Tidy

/-! ## The items of phrases -/

/-- Expressions make no closures. -/
lemma Expr.Emits.noClosures {s : ExprSort} {e : Expr s} {code : List Instr}
    (h : e.Emits Γ L code) : NoClosures code := by
  have one : ∀ i : Instr, makesClosure i = false → NoClosures [i] :=
    fun i other => .cons other noClosures_nil
  induction h with
  | number | string => exact one _ rfl
  | @literal kind i word =>
    have other : makesClosure i = false := by cases kind <;> cases word <;> rfl
    exact one i other
  | name | this => exact noClosures_read _
  | assign _ _ ih => exact ih.append (noClosures_write _)
  | superGet => exact (noClosures_read _).append ((noClosures_read _).append (one _ rfl))
  | superCall _ _ _ _ _ _ ih =>
    exact (noClosures_read _).append (ih.append ((noClosures_read _).append (one _ rfl)))
  | grouping _ ih | someArguments _ ih | lastArgument _ ih => exact ih
  | @unary op i _ _ word _ ih =>
    have other : makesClosure i = false := by cases op <;> cases word <;> rfl
    exact ih.append (one i other)
  | @binary op _ is _ _ _ _ word _ _ ih ih' =>
    have other : NoClosures is := by
      cases op <;> cases word <;> first
        | exact one _ rfl
        | exact .cons rfl (one _ rfl)
    exact ih.append (ih'.append other)
  | and _ _ _ ih ih' => exact ih.append (.cons rfl (.cons rfl ih'))
  | or _ _ _ ih ih' => exact ih.append (.cons rfl (.cons rfl (.cons rfl ih')))
  | call _ _ _ ih ih' | set _ _ _ ih ih' | invoke _ _ _ _ ih ih' =>
    exact ih.append (ih'.append (one _ rfl))
  | get _ _ ih => exact ih.append (one _ rfl)
  | noArguments => exact noClosures_nil
  | argument _ _ ih ih' => exact ih.append ih'

lemma clause_noClosures {c : Option (Expr .expression)} {code : Option (List Instr)}
    (h : ClauseEmits Γ L c code) : ∀ is ∈ code, NoClosures is := by
  intro is there
  cases h with
  | none => cases there
  | some inner =>
    obtain rfl := Option.some.inj there
    exact inner.noClosures

lemma value_noClosures {value : Option (Expr .expression)} {code : List Instr}
    (h : ValueEmits Γ L value code) : NoClosures code := by
  cases h with
  | none => exact .cons rfl noClosures_nil
  | some inner => exact inner.noClosures

lemma binds_noClosures {x : String} {top : Bool} {define : List Instr}
    (h : Binds Γ L x top define L') : NoClosures define := by
  cases h with
  | global => exact .cons rfl noClosures_nil
  | slot => exact noClosures_nil

lemma returnCode_noClosures (kind : BodyKind) : NoClosures (returnCode kind) := by
  cases kind <;> exact .cons rfl (.cons rfl noClosures_nil)

lemma exits_noClosures (inner : List Local) : NoClosures (exits inner) := by
  intro i there
  obtain ⟨v, -, rfl⟩ := List.mem_map.1 there
  split <;> rfl

lemma condition_noClosures {c : Option (List Instr)} (cond : ∀ is ∈ c, NoClosures is)
    (step : Option (List Instr)) (n : Nat) : NoClosures (conditionCode step n c) := by
  cases c with
  | none => exact noClosures_nil
  | some is => exact (cond is rfl).append (.cons rfl (.cons rfl noClosures_nil))

lemma increment_noClosures (c : Option (List Instr)) {step : Option (List Instr)}
    (advance : ∀ is ∈ step, NoClosures is) : NoClosures (incrementCode c step) := by
  cases step with
  | none => exact noClosures_nil
  | some is => exact .cons rfl ((advance is rfl).append (.cons rfl (.cons rfl noClosures_nil)))

lemma exit_noClosures (c : Option (List Instr)) : NoClosures (exitCode c) := by
  cases c with
  | none => exact noClosures_nil
  | some is => exact .cons rfl noClosures_nil

/-- Slot zero stays in scope when a variable is declared. -/
lemma slotZero_cons (last : (namesOf L).getLast? = some zero) (v : Local) :
    (namesOf (v :: L)).getLast? = some zero := by
  show (v.name :: namesOf L).getLast? = some zero
  rw [List.getLast?_cons, last]
  rfl

lemma slotZero_binds {x : String} {top : Bool} {define : List Instr}
    (last : (namesOf L).getLast? = some zero) (binds : Binds Γ L x top define L') :
    (namesOf L').getLast? = some zero := by
  cases binds with
  | global => exact last
  | slot => exact slotZero_cons last _

namespace Tidy

lemma loop {c step : Option (List Instr)} {body : List Item}
    (last : (namesOf L).getLast? = some zero) (cond : ∀ is ∈ c, NoClosures is)
    (advance : ∀ is ∈ step, NoClosures is) (inner : Tidy Γ zero body) :
    Tidy Γ zero (loopItems L c step body) :=
  (under last ((condition_noClosures cond step _).append (increment_noClosures c advance))).append
    (inner.append (under last (.cons rfl (exit_noClosures c))))

lemma copy {slot : Nat} {w : Local} {body : List Item} (last : (namesOf L).getLast? = some zero)
    (inner : Tidy Γ zero body) : Tidy Γ zero (copyItems L slot w body) :=
  (under last (.cons rfl noClosures_nil)).append (inner.append
    ((under (slotZero_cons last w) (.cons rfl (.cons rfl (.cons rfl noClosures_nil)))).append
      (under last (exits_noClosures _))))

/-- A closure that captures only locals in scope. -/
lemma closure {index : UInt8} {captures : List Capture} {is : List Instr}
    (last : (namesOf L).getLast? = some zero)
    (inScope : ∀ capture ∈ captures, capture.isLocal = true → capture.index.toNat < L.length)
    (plain : NoClosures is) : Tidy Γ zero (Syntax.under L (.closure index captures :: is)) := by
  have first : Tidy Γ zero [.instr (.closure index captures) (namesOf L)] := by
    refine ⟨fun item there => ?_, ?_⟩
    · rw [List.mem_singleton.1 there]
      exact last
    · intro before index' captures' scope after split capture there direct
      cases before with
      | nil =>
        obtain ⟨made, rfl⟩ := Item.instr.inj (List.cons.inj split).1
        obtain ⟨-, rfl⟩ := Instr.closure.inj made
        left
        rw [length_namesOf]
        exact inScope capture there direct
      | cons item before =>
        exact absurd (List.cons.inj split).2.symm
          (List.append_ne_nil_of_right_ne_nil _ (List.cons_ne_nil _ _))
  exact first.append (under last plain)

/-- A closure that becomes a local variable, and may capture itself. -/
lemma ownClosure {index : UInt8} {captures : List Capture} {v : Local} {p : Prototype}
    (last : (namesOf L).getLast? = some zero) (named : p.name = v.name)
    (constant : Γ.constants[index.toNat]? = some (.prototype p))
    (inScope : ∀ capture ∈ captures, capture.isLocal = true → capture.index.toNat < (v :: L).length) :
    Tidy Γ zero (Syntax.framed L (Syntax.under L [.closure index captures]) (v :: L)) := by
  refine ⟨?_, ?_⟩
  · intro item there
    rcases List.mem_cons.1 there with rfl | there
    · exact last
    · rcases List.mem_cons.1 there with rfl | there
      · exact last
      · rw [List.mem_singleton.1 there]
        exact slotZero_cons last v
  · intro before index' captures' scope after split capture there direct
    cases before with
    | nil => cases (List.cons.inj split).1
    | cons first before =>
      obtain ⟨start, others⟩ := List.cons.inj split
      cases before with
      | nil =>
        obtain ⟨item, rest⟩ := List.cons.inj others
        obtain ⟨made, rfl⟩ := Item.instr.inj item
        obtain ⟨rfl, rfl⟩ := Instr.closure.inj made
        have bound := inScope capture there direct
        rw [length_namesOf]
        rcases Nat.lt_succ_iff_lt_or_eq.1 bound with outer | own
        · exact .inl outer
        · refine .inr ⟨own, [], p, [], by rw [← start]; rfl, ?_, constant⟩
          rw [named]
          exact rest.symm
      | cons second before =>
        cases before with
        | nil => cases (List.cons.inj (List.cons.inj others).2).1
        | cons third before =>
          exact absurd (List.cons.inj (List.cons.inj others).2).2.symm
            (List.append_ne_nil_of_right_ne_nil _ (List.cons_ne_nil _ _))

end Tidy

theorem Stmt.Emits.tidy {top : Bool} {s : StmtSort} {t : Stmt s}
    (h : t.Emits Γ top L items L') (last : (namesOf L).getLast? = some zero) :
    Tidy Γ zero items ∧ (namesOf L').getLast? = some zero := by
  induction h with
  | print inner | expression inner =>
    exact ⟨.framed last (.under last (inner.noClosures.append (.cons rfl noClosures_nil))) last, last⟩
  | retNone => exact ⟨.framed last (.under last (returnCode_noClosures _)) last, last⟩
  | retSome _ _ inner =>
    exact ⟨.framed last (.under last (inner.noClosures.append (.cons rfl noClosures_nil))) last, last⟩
  | ifThen condition _ _ ih =>
    refine ⟨.framed last (.append (.under last ?_) ((ih last).1.append (.under last ?_))) last, last⟩
    · exact condition.noClosures.append (.cons rfl (.cons rfl noClosures_nil))
    · exact .cons rfl (.cons rfl noClosures_nil)
  | ifElse condition _ _ _ _ ih ih' =>
    refine ⟨.framed last (.append (.under last ?_) ((ih last).1.append
      (.append (.under last ?_) (ih' last).1))) last, last⟩
    · exact condition.noClosures.append (.cons rfl (.cons rfl noClosures_nil))
    · exact .cons rfl (.cons rfl noClosures_nil)
  | whileLoop condition _ _ ih =>
    refine ⟨.framed last (.loop last ?_ (fun _ there => nomatch there) (ih last).1) last, last⟩
    rintro is ⟨⟩
    exact condition.noClosures
  | forLoop clause condition advance _ _ ih =>
    refine ⟨.framed last (.append (.under last ?_) (.loop last (clause_noClosures condition)
      (clause_noClosures advance) (ih last).1)) last, last⟩
    cases clause with
    | none => exact noClosures_nil
    | expression inner => exact inner.noClosures.append (.cons rfl noClosures_nil)
  | @forVar _ _ _ _ _ _ v _ _ _ _ _ _ _ clause _ _ condition advance _ _ _ ih =>
    have last' := slotZero_cons last v
    exact ⟨.framed last (.append (.under last (value_noClosures clause)) (.append
      (.loop last' (clause_noClosures condition) (clause_noClosures advance)
        (.copy last' (ih (slotZero_cons last' _)).1)) (.under last (exits_noClosures _)))) last, last⟩
  | block _ ih => exact ⟨.framed last ((ih last).1.append (.under last (exits_noClosures _))) last, last⟩
  | statement _ ih => exact ih last
  | var inner binds =>
    have last' := slotZero_binds last binds
    exact ⟨.framed last (.under last ((value_noClosures inner).append (binds_noClosures binds))) last',
      last'⟩
  | function binds inside _ _ constant assembles =>
    have last' := slotZero_binds last binds
    have inScope := fun capture there direct =>
      @Assembles.local_lt _ _ _ _ _ _ _ _ _ assembles inside capture there direct
    cases binds with
    | global global_ =>
      refine ⟨.framed last (.closure last ?_ (.cons rfl noClosures_nil)) last, last⟩
      intro capture there direct
      obtain ⟨y, v, found, -⟩ := inScope capture there direct
      exact findLocal?_lt found
    | slot named =>
      refine ⟨.ownClosure last (assembles.name.trans named.symm) constant ?_, last'⟩
      intro capture there direct
      obtain ⟨y, v, found, -⟩ := inScope capture there direct
      exact findLocal?_lt found
  | cls _ binds _ _ ih =>
    have last' := slotZero_binds last binds
    exact ⟨.framed last (.append (.under last (.cons rfl (binds_noClosures binds)))
      (.append (.under last' (noClosures_read _)) ((ih last').1.append
        (.under last' (.cons rfl noClosures_nil))))) last', last'⟩
  | @subclass _ _ _ _ _ _ _ _ _ _ hidden place again _ _ binds _ _ _ _ _ _ _ ih =>
    have last' := slotZero_binds last binds
    have last'' := slotZero_cons last' hidden
    have reads : NoClosures [place.read, .inherit, again.read] :=
      (noClosures_read place).append (.cons rfl (noClosures_read again))
    exact ⟨.framed last (.append (.under last (.cons rfl (binds_noClosures binds)))
      (.append (.under last' (noClosures_read _)) (.append (.under last'' reads)
        ((ih last'').1.append (.append (.under last'' (.cons rfl noClosures_nil))
          (.under last' (exits_noClosures _))))))) last', last'⟩
  | noDeclarations | noMethods => exact ⟨.nil _ _, last⟩
  | declare _ _ ih ih' =>
    obtain ⟨first, last⟩ := ih last
    obtain ⟨others, last⟩ := ih' last
    exact ⟨first.append others, last⟩
  | method _ inside _ _ _ assembles _ _ ih =>
    obtain ⟨others, last'⟩ := ih last
    refine ⟨.append (.closure last ?_ (.cons rfl noClosures_nil)) others, last'⟩
    intro capture there direct
    obtain ⟨y, v, found, -⟩ := assembles.local_lt inside there direct
    exact findLocal?_lt found

end Lox.Syntax

namespace Lox.Compile

open Syntax

/-! ## Compiled functions -/

variable {p : Prototype} {Γ : Context} {start : List Local} {items : List Item} {o h : Nat}

lemma Compiled.tidy (compiled : Compiled p Γ start items) :
    ∃ zero, zero ≠ "super" ∧ Tidy Γ zero items := by
  cases compiled with
  | script _ _ named emits =>
    have bottom : (namesOf [_]).getLast? = some "" := congrArg some named
    obtain ⟨body, last⟩ := emits.tidy bottom
    exact ⟨"", by decide, body.append (.under last (returnCode_noClosures _))⟩
  | function _ entry _ emits =>
    have bottom : (namesOf start).getLast? = some Γ.kind.slotZero := by
      rw [entry]
      exact List.getLast?_concat
    obtain ⟨body, last⟩ := emits.tidy bottom
    refine ⟨Γ.kind.slotZero, ?_, body.append (.under last (returnCode_noClosures _))⟩
    cases Γ.kind <;> decide

section Shapes

variable {E : Shapes}

/-- Control flow reaches an offset with the height of its shape. -/
lemma Compiled.reaches (compiled : Compiled p Γ start items)
    (starts : ∀ o σ, E o = some σ → Starts 0 (instrs items) o)
    (entry : Goes E 0 ⟨slotsOf start, none⟩) (valid : Valid Γ.surroundings E 0 items)
    (reaches : Reaches p o h) : ∃ σ, E o = some σ ∧ σ.height = h := by
  induction reaches with
  | entry =>
    obtain ⟨τ, there, refines⟩ := entry
    refine ⟨τ, there, ?_⟩
    rw [← refines.height, Shape.height_mk, length_slotsOf, compiled.arity]
  | @step o h i o' _ decoded leads ih =>
    obtain ⟨σ, there, rfl⟩ := ih
    obtain ⟨before, j, after, split, rfl⟩ := starts o σ there
    rw [Nat.zero_add] at there decoded leads
    have same := decoded.symm.trans (compiled.decoded split)
    obtain rfl := Option.some.inj same
    obtain ⟨σ', scope, there', -, flows⟩ := valid.instr split
    rw [Nat.zero_add] at there' flows
    obtain rfl := Option.some.inj (there.symm.trans there')
    exact flows.height leads

end Shapes

/-- An instruction of a row of items. -/
lemma instrs_split {items : List Item} {before after : List Instr} {i : Instr}
    (split : instrs items = before ++ i :: after) :
    ∃ before' scope after', items = before' ++ .instr i scope :: after' ∧ instrs before' = before := by
  induction items generalizing before with
  | nil => exact absurd split (List.append_ne_nil_of_right_ne_nil _ (List.cons_ne_nil _ _)).symm
  | cons item items ih =>
    cases item with
    | boundary scope =>
      obtain ⟨before', scope', after', rfl, rfl⟩ := ih split
      exact ⟨.boundary scope :: before', scope', after', rfl, rfl⟩
    | instr j scope =>
      cases before with
      | nil =>
        obtain ⟨rfl, -⟩ := List.cons.inj split
        exact ⟨[], scope, items, rfl, rfl⟩
      | cons k before =>
        obtain ⟨rfl, others⟩ := List.cons.inj split
        obtain ⟨before', scope', after', rfl, rfl⟩ := ih others
        exact ⟨.instr j scope :: before', scope', after', rfl, rfl⟩

/-- A compiled function keeps the stack discipline. -/
theorem Compiled.disciplined (compiled : Compiled p Γ start items) : Disciplined p items := by
  obtain ⟨E, starts, entry, valid⟩ := compiled.ends.shapes
  obtain ⟨zero, other, tidy⟩ := compiled.tidy
  have shape : ∀ {o h}, Reaches p o h → ∃ σ, E o = some σ ∧ σ.height = h :=
    fun reaches => compiled.reaches starts entry valid reaches
  have here : ∀ {before i scope after h}, items = before ++ Item.instr i scope :: after →
      Reaches p (itemsSize before) h → Spares scope h i ∧
        ∃ σ, σ.height = h ∧ Flows Γ.surroundings E (itemsSize before + i.size) σ i := by
    intro before i scope after h split reaches
    obtain ⟨σ, there, rfl⟩ := shape reaches
    rw [split] at valid
    obtain ⟨⟨σ', there', spares, flows⟩, -⟩ := ((valid_append _ _ _).1 valid).2
    rw [Nat.zero_add] at there' flows
    obtain rfl := Option.some.inj (there.symm.trans there')
    exact ⟨spares, σ, rfl, flows⟩
  refine ⟨compiled.code, ?_, ?_, ?_, ?_, ?_, ?_, ?_⟩
  · intro o h h' reaches reaches'
    obtain ⟨σ, there, rfl⟩ := shape reaches
    obtain ⟨σ', there', rfl⟩ := shape reaches'
    rw [Option.some.inj (there.symm.trans there')]
  · intro o h reaches
    obtain ⟨σ, there, -⟩ := shape reaches
    obtain ⟨before, i, after, split, rfl⟩ := starts o σ there
    have decoded := compiled.decoded split
    obtain ⟨before', scope, after', rows, rfl⟩ := instrs_split split
    rw [Nat.zero_add]
    exact ⟨before', i, scope, after', rows, rfl, decoded⟩
  · intro before i scope after h split reaches
    have fewer := i.pops_le_reach
    rcases (here split reaches).1 with enough | ⟨rfl, height, -⟩
    · omega
    · exact Nat.le_of_eq height.symm
  · intro before i scope after h split reaches
    rcases (here split reaches).1 with enough | ⟨inherits, height, first⟩
    · exact .inl enough
    · exact .inr ⟨inherits, first, height⟩
  · intro before i scope after h split reaches
    have last := tidy.slotZero (.instr i scope) (by
      rw [split]
      exact List.mem_append_right _ List.mem_cons_self)
    have nonempty : scope ≠ [] := by
      rintro rfl
      cases last
    have some := List.length_pos_iff.2 nonempty
    rcases (here split reaches).1 with enough | ⟨rfl, height, first⟩
    · omega
    · cases scope with
      | nil => exact absurd rfl nonempty
      | cons x scope =>
        cases scope with
        | nil =>
          have top : x = "super" := Option.some.inj first
          have bottom : x = zero := Option.some.inj last
          exact absurd (bottom.symm.trans top) other
        | cons y scope =>
          rw [height]
          simp only [Instr.reach, List.length_cons]
          omega
  · intro before i scope after h split reaches
    obtain ⟨spares, σ, rfl, flows⟩ := here split reaches
    cases i with
    | getLocal slot =>
      obtain ⟨τ, exec, -⟩ := flows
      cases exec with
      | literal kind | unary kind | binary kind => cases kind
      | getLocal found => exact fromBottom?_lt found
    | setLocal slot =>
      obtain ⟨τ, exec, -⟩ := flows
      cases exec with
      | literal kind | unary kind | binary kind => cases kind
      | setLocal _ found => exact fromBottom?_lt found
    | closure index captures =>
      intro capture there direct
      rcases tidy.captures _ _ _ _ _ split capture there direct with
        inner | ⟨own, before', q, after', stands, becomes, constant⟩
      · rcases spares with enough | ⟨inherits, -, -⟩
        · left
          simp only [Instr.reach] at enough
          omega
        · cases inherits
      · right
        rw [stands, List.append_assoc, List.singleton_append] at split
        have size : itemsSize before = itemsSize before' := by
          rw [stands, itemsSize, instrs_append, instrs_boundary, instrs_nil, List.append_nil]
        rw [size] at reaches
        obtain ⟨τ, there', same⟩ := shape reaches
        rw [split] at valid
        have height := valid.boundary (by rw [Nat.zero_add]; exact there')
        rw [← same, height]
        exact ⟨own, q, after', becomes, compiled.entry constant⟩
    | _ => trivial
  · intro before scope after h split reaches
    obtain ⟨σ, there, rfl⟩ := shape reaches
    rw [split] at valid
    exact valid.boundary (by rw [Nat.zero_add]; exact there)

end Lox.Compile
