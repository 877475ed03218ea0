import Lox.Proofs.Compile.Programs
import Lox.Proofs.Semantics.Simulation
import Lox.Proofs.Session.Quiescence

/-!
# Programs are executed as they should be

The code of a statement does what the evaluator does (`Stmt.follows`), a loop turn by turn
(`turns_follow`).  So an accepted source whose program has no functions and classes gives what the
evaluator gives, and terminates if and only if the evaluator does (`Session.interpret_evaluates`).
-/

namespace Lox.Plain

open Compile Syntax

variable {α : Type} {c : Closure} {r : List String} {o o' n k fuel count : Nat} {traced : Bool} {m : Machine}
    {Γ : Context}
  {G : List Binding} {L L' : List Local} {env : Env} {d : Datum} {temps ds slots : List Datum}
  {g : String → Option Datum} {p : List String} {v w : Local} {act act' : Eval Unit}
  {test step : Option Expr} {cond increment : Option (List Instr)} {items : List Item}

/-- What has been done may be followed by more steps. -/
lemma Follows.further {Q R : α → Env → Machine → Prop} {result : EStateM.Result Halt Env α}
    (first : Follows traced r k m Q result)
    (second : ∀ a env m', Q a env m' → Follows traced r k m' R (.ok a env)) : Follows traced r k m R result := by
  cases result with
  | ok a env =>
    obtain ⟨n, m', runs, holds⟩ := first
    exact (Follows.after runs (second a env m' holds)).fewer (Nat.le_add_left _ _)
  | error halt env => cases halt <;> exact first

lemma Here.at (here : Here c r o temps G L env m) (same : o = o') : Here c r o' temps G L env m := same ▸ here

/-! ## Scopes -/

lemma Holds.length_locals {locals : List (String × Datum)} (h : Holds G L slots locals) :
    locals.length = G.length := by
  induction h with
  | empty => rfl
  | single _ ih => simp [ih]
  | doubled _ _ ih => simp [ih]

/-- The instruction that takes a local off the stack. -/
lemma exit_leads :
    Leads (if v.isCaptured then .closeUpvalue else .pop) (At c r o (d :: ds) g p) (At c r o ds g p) := by
  split
  · exact closeUpvalue_leads
  · exact pop_leads

lemma exit_size (v : Local) : (if v.isCaptured then Instr.closeUpvalue else .pop).size = 1 := by
  split <;> rfl

/-- At the end of a scope its variables are taken off the stack. -/
lemma exits_follow {inner : List Local} {Q : α → Env → Machine → Prop} {result : EStateM.Result Halt Env α}
    (here : Here c r o [] (List.replicate inner.length .single ++ G) (inner ++ L) env m)
    (code : CodeAt c o (exits inner))
    (rest : ∀ m', Here c r (o + codeSize (exits inner)) [] G L
      { env with locals := env.locals.drop inner.length } m' → Follows traced r k m' Q result) :
    Follows traced r k m Q result := by
  induction inner generalizing o env m with
  | nil => exact rest m here
  | cons v inner ih =>
    obtain ⟨slots, holds, here⟩ := here
    obtain ⟨locals, globals, printed⟩ := env
    cases holds with
    | @single _ _ _ outer _ _ others =>
      refine .step here code.1 exit_leads fun m' there => ?_
      have there : Here c r _ [] (List.replicate inner.length .single ++ G) (inner ++ L) ⟨outer, globals, printed⟩ m' :=
        ⟨_, others, there⟩
      refine ih there code.2 fun m' there => rest m' ?_
      have size : codeSize (exits (v :: inner)) =
          (if v.isCaptured then Instr.closeUpvalue else .pop).size + codeSize (exits inner) := rfl
      rw [size, ← Nat.add_assoc]
      exact there

/-- The variables of a scope are in scope until it is done. -/
lemma locally_follows (inner : List Local) (outside : env.locals.length = G.length)
    (first : Follows traced r k m
      (fun _ => Here c r o [] (List.replicate inner.length .single ++ G) (inner ++ L)) (act env))
    (code : CodeAt c o (exits inner)) :
    Follows traced r k m (fun _ => Here c r (o + codeSize (exits inner)) [] G L) (locally act env) := by
  show Follows traced r k m _ ((act >>= fun _ => modify fun env' =>
    { env' with locals := env'.locals.drop (env'.locals.length - env.locals.length) } : Eval Unit) env)
  refine first.bind fun _ env' m' there => ?_
  have length : env'.locals.length - env.locals.length = inner.length := by
    obtain ⟨slots, holds, -⟩ := there
    rw [holds.length_locals, outside, List.length_append, List.length_replicate, Nat.add_sub_cancel]
  refine exits_follow there code fun m'' there => ⟨0, m'', rfl, ?_⟩
  dsimp only
  rw [length]
  exact there

/-! ## Variables -/

lemma initialValue_follows (suits : Suits Γ c) {value : Option Expr} {code : List Instr}
    (emits : ValueEmits Γ L (value.map Expr.tree) code) (proper : ClauseProper (value.map Expr.tree))
    (here : Here c r o temps G L env m) (placed : CodeAt c o code) :
    Follows traced r k m (Leaves c r (o + codeSize code) temps G L) (initialValue value env) := by
  cases value with
  | none =>
    cases emits
    exact here.step placed.1 (fun slots => pushNil_leads) fun m' there => .pure there
  | some e =>
    cases emits with
    | some inner => exact Expr.follows suits inner (proper _ rfl) here placed

/-- A value on the stack becomes a variable. -/
lemma declareVariable_follows (suits : Suits Γ c) {top : Bool} {x : String} {code : List Instr}
    (binds : Binds Γ L x top code L') (here : Here c r o [d] G L env m) (placed : CodeAt c o code) :
    Follows traced r k m
      (fun _ => Here c r (o + codeSize code) [] (List.replicate (L'.length - L.length) .single ++ G) L')
      (declareVariable top x d env) := by
  obtain ⟨slots, holds, here⟩ := here
  cases binds with
  | global constant =>
    obtain ⟨object, entry, rfl⟩ := constant
    rw [← suits.pool] at entry
    refine .step here placed.1 (defineGlobal_leads entry) fun m' there => ⟨0, m', rfl, slots, ?_, there⟩
    rw [Nat.sub_self]
    exact holds
  | @slot v named fits =>
    refine ⟨0, m, rfl, d :: slots, ?_, here⟩
    have one : (v :: L).length - L.length = 1 := by simp
    rw [one, ← named]
    exact .single holds

/-! ## Loops -/

/-- The condition of a loop decides where the machine goes on. -/
lemma condition_follows (suits : Suits Γ c) (emits : ClauseEmits Γ L (test.map Expr.tree) cond)
    (proper : ClauseProper (test.map Expr.tree))
    (fits : cond.isSome → 1 + incrementSize increment + n + 3 ≤ maxDistance)
    (here : Here c r o [] G L env m) (placed : CodeAt c o (conditionCode increment n cond))
    (exit : CodeAt c (o + conditionSize cond + incrementSize increment + n + 3) (exitCode cond)) :
    Follows traced r k m
      (fun goesOn => Here c r (if goesOn then o + conditionSize cond else
        o + conditionSize cond + incrementSize increment + n + 3 + codeSize (exitCode cond)) [] G L)
      (condition test env) := by
  cases test with
  | none =>
    cases emits
    exact .pure here
  | some e =>
    cases emits with
    | @some _ code inner =>
      obtain ⟨placed, jump, drop, -⟩ := codeAt_append.1 placed
      refine (Expr.follows suits inner (proper _ rfl) here placed).bind fun d env₁ m₁ there => ?_
      cases falsey : d.isFalsey with
      | true =>
        refine there.step jump (fun slots => jumpIfFalse_leads falsey) fun m' (there : Here c r _ [d] G L env₁ m') => ?_
        have same : o + codeSize code + (Instr.jumpIfFalse (UInt16.ofNat (1 + incrementSize increment + n + 3))).size +
            (UInt16.ofNat (1 + incrementSize increment + n + 3)).toNat =
              o + conditionSize (some code) + incrementSize increment + n + 3 := by
          rw [distance_toNat (fits rfl)]
          simp only [Instr.size, conditionSize]
          omega
        rw [same] at there
        exact there.step exit.1 (fun slots => pop_leads) fun m' there => .pure there
      | false =>
        refine there.step jump (fun slots => jumpIfFalse_stays falsey) fun m' (there : Here c r _ [d] G L env₁ m') => ?_
        exact there.step drop (fun slots => pop_leads) fun m' there => .pure there

/-- On the way into the body the increment is jumped over. -/
lemma enter_follows {Q : α → Env → Machine → Prop} {result : EStateM.Result Halt Env α}
    (fits : ∀ is ∈ increment, codeSize is + 4 ≤ maxDistance) (placed : CodeAt c o (incrementCode cond increment))
    (here : Here c r o [] G L env m)
    (rest : ∀ m', Here c r (o + incrementSize increment) [] G L env m' → Follows traced r k m' Q result) :
    Follows traced r k m Q result := by
  cases increment with
  | none => exact rest m here
  | some code =>
    refine here.step placed.1 (fun slots => jump_leads) fun m' (there : Here c r _ [] G L env m') => rest m' ?_
    have same : o + (Instr.jump (UInt16.ofNat (codeSize code + 4))).size + (UInt16.ofNat (codeSize code + 4)).toNat =
        o + incrementSize (some code) := by
      rw [distance_toNat (fits code rfl)]
      simp only [Instr.size, incrementSize]
      omega
    exact same ▸ there

/-- After the body comes the increment, and then the loop is where it was; a turn takes a step at least. -/
lemma increment_follows (suits : Suits Γ c) (emits : ClauseEmits Γ L (step.map Expr.tree) increment)
    (proper : ClauseProper (step.map Expr.tree)) (fits : LoopFits cond increment n)
    (placed : CodeAt c (o + conditionSize cond) (incrementCode cond increment))
    (back : InstrAt c (o + conditionSize cond + incrementSize increment + n)
      (.loop (UInt16.ofNat (backDistance cond increment n))))
    (here : Here c r (o + conditionSize cond + incrementSize increment + n) [] G L env m)
    {Q : α → Env → Machine → Prop} {next : Unit → Eval α}
    (rest : ∀ env' m', Here c r o [] G L env' m' → Follows traced r k m' Q (next () env')) :
    Follows traced r (k + 1) m Q ((Plain.increment step >>= next) env) := by
  obtain ⟨slots, holds, here⟩ := here
  have far := distance_toNat fits.back
  have size : (Instr.loop (UInt16.ofNat (backDistance cond increment n))).size = 3 := rfl
  cases step with
  | none =>
    cases emits
    have enough : (UInt16.ofNat (backDistance cond none n)).toNat ≤
        o + conditionSize cond + incrementSize none + n + 3 := by
      rw [far]
      simp only [backDistance, incrementSize]
      omega
    refine .turn here back (loop_leads enough) fun m' there => rest env m' ⟨slots, holds, ?_⟩
    have same : o + conditionSize cond + incrementSize none + n + 3 -
      (UInt16.ofNat (backDistance cond none n)).toNat = o := by
      rw [far]
      simp only [backDistance, incrementSize]
      omega
    exact same ▸ there
  | some e =>
    cases emits with
    | @some _ code inner =>
      have enough : (UInt16.ofNat (backDistance cond (some code) n)).toNat ≤
          o + conditionSize cond + incrementSize (some code) + n + 3 := by
        rw [far]
        simp only [backDistance, incrementSize]
        omega
      have start : o + conditionSize cond + incrementSize (some code) + n + 3 -
          (UInt16.ofNat (backDistance cond (some code) n)).toNat = o + conditionSize cond + 3 := by
        rw [far]
        simp only [backDistance, incrementSize]
        omega
      refine .turn here back (loop_leads enough) fun m' there => ?_
      rw [size, start] at there
      obtain ⟨first, drop, again, -⟩ := codeAt_append.1 placed.2
      have there : Here c r (o + conditionSize cond + 3) [] G L env m' := ⟨slots, holds, there⟩
      simp only [Plain.increment, bind_assoc, pure_bind]
      refine (Expr.follows suits inner (proper _ rfl) there first).bind fun d env₁ m₁ there => ?_
      refine there.step drop (fun slots => pop_leads) fun m₂ (there : Here c r _ [] G L env₁ m₂) => ?_
      have far' := distance_toNat (fits.increment code rfl)
      refine there.step again (fun slots => loop_leads ?_) fun m₃ (there : Here c r _ [] G L env₁ m₃) => rest env₁ m₃ ?_
      · rw [far']
        simp only [Instr.size]
        omega
      · have same : o + conditionSize cond + 3 + codeSize code + Instr.pop.size +
            (Instr.loop (UInt16.ofNat (conditionSize cond + codeSize code + 7))).size -
              (UInt16.ofNat (conditionSize cond + codeSize code + 7)).toNat = o := by
          rw [far']
          simp only [Instr.size]
          omega
        exact same ▸ there

/-- The code of a loop, around a body of so many bytes. -/
structure LoopAt (c : Closure) (o : Nat) (cond increment : Option (List Instr)) (n : Nat) : Prop where
  test : CodeAt c o (conditionCode increment n cond)
  step : CodeAt c (o + conditionSize cond) (incrementCode cond increment)
  back : InstrAt c (o + conditionSize cond + incrementSize increment + n)
    (.loop (UInt16.ofNat (backDistance cond increment n)))
  exit : CodeAt c (o + conditionSize cond + incrementSize increment + n + 3) (exitCode cond)

/-- If the machine follows a turn of the body, it follows all turns of the loop. -/
theorem turns_follow (suits : Suits Γ c) (test step : Option Expr) (emits : ClauseEmits Γ L (test.map Expr.tree) cond)
    (emits' : ClauseEmits Γ L (step.map Expr.tree) increment) (proper : ClauseProper (test.map Expr.tree))
    (proper' : ClauseProper (step.map Expr.tree)) (fits : LoopFits cond increment n)
    (placed : LoopAt c o cond increment n)
    (turn : ∀ {k env m}, k ≤ fuel → Here c r (o + conditionSize cond + incrementSize increment) [] G L env m →
      Follows traced r k m (fun _ => Here c r (o + conditionSize cond + incrementSize increment + n) [] G L) (act env))
    (enough : k ≤ fuel) (few : k ≤ count) (here : Here c r o [] G L env m) :
    Follows traced r k m
      (fun _ => Here c r (o + conditionSize cond + incrementSize increment + n + 3 + codeSize (exitCode cond)) [] G L)
      (turns test step act count env) := by
  induction count generalizing k env m with
  | zero =>
    obtain rfl := Nat.le_zero.1 few
    exact ⟨m, rfl⟩
  | succ count ih =>
    refine (condition_follows suits emits proper fits.exit here placed.test placed.exit).bind
      fun goesOn env₁ m₁ there => ?_
    cases goesOn with
    | false => exact .pure there
    | true =>
      have short : ∀ is ∈ increment, codeSize is + 4 ≤ maxDistance := fun is there =>
        Nat.le_trans (by omega) (fits.increment is there)
      refine enter_follows short placed.step there fun m₂ there => ?_
      refine (turn enough there).bind fun _ env₂ m₃ there => ?_
      have fewer : k ≤ k - 1 + 1 := by omega
      refine (increment_follows (k := k - 1) suits emits' proper' fits placed.step placed.back there
        fun env' m' there => ih ?_ ?_ there).fewer fewer
      · omega
      · omega

/-- A turn of a loop with a variable works on a copy of it, which is put back afterwards. -/
lemma copy_follows (fits : L.length + 2 ≤ maxOperands) (named : w.name = v.name)
    (placed : CodeAt c o (instrs (copyItems (v :: L) L.length w items)))
    (inner : ∀ {env m}, CodeAt c (o + 2) (instrs items) → Here c r (o + 2) [] (.doubled :: G) (w :: v :: L) env m →
      Follows traced r k m (fun _ => Here c r (o + 2 + itemsSize items) [] (.doubled :: G) (w :: v :: L)) (act env))
    (here : Here c r o [] (.single :: G) (v :: L) env m) :
    Follows traced r k m
      (fun _ => Here c r (o + itemsSize (copyItems (v :: L) L.length w items)) [] (.single :: G) (v :: L))
      (act env) := by
  have inside : L.length < maxOperands := by omega
  have slot : (UInt8.ofNat L.length).toNat = L.length := UInt8.toNat_ofNat_of_lt' inside
  have copy : (UInt8.ofNat (v :: L).length).toNat = L.length + 1 :=
    UInt8.toNat_ofNat_of_lt' (Nat.lt_of_succ_le fits)
  have size : itemsSize (copyItems (v :: L) L.length w items) = 2 + itemsSize items + 6 := by
    simp only [itemsSize, copyItems, instrs_append, instrs_under, codeSize_append, codeSize_cons, codeSize_nil, exits,
      List.map_cons, List.map_nil, exit_size]
    simp only [Instr.size]
    omega
  rw [size]
  simp only [copyItems, instrs_append, instrs_under, codeAt_append] at placed
  obtain ⟨load, body, ⟨reload, store, drop, -⟩, leave, -⟩ := placed
  obtain ⟨slots, holds, here⟩ := here
  obtain ⟨locals, globals, printed⟩ := env
  cases holds with
  | @single _ _ ds locals _ d others =>
    have there : fromBottom? ([] ++ d :: ds) (UInt8.ofNat L.length).toNat = some d := by
      rw [slot, List.nil_append, fromBottom?_cons, if_pos others.length.symm]
    refine .step here load.1 (getLocal_leads there) fun m₁ there => ?_
    refine (inner body ⟨_, .doubled named others, there⟩).further fun _ env' m₂ there => ?_
    obtain ⟨slots, holds, there⟩ := there
    obtain ⟨locals, globals, printed⟩ := env'
    cases holds with
    | @doubled _ _ ds _ _ _ d stale _ others =>
      have top : fromBottom? ([] ++ d :: stale :: ds) (UInt8.ofNat (v :: L).length).toNat = some d := by
        rw [copy, List.nil_append, fromBottom?_cons, if_pos (by rw [List.length_cons, others.length])]
      refine .step there reload (getLocal_leads top) fun m₃ there => ?_
      have stored : setFromBottom ([] ++ d :: stale :: ds) (UInt8.ofNat L.length).toNat d = d :: d :: ds := by
        rw [slot, List.nil_append, setFromBottom_cons, setFromBottom_cons, if_neg, if_pos others.length.symm]
        rw [List.length_cons, others.length]
        omega
      have lower : (UInt8.ofNat L.length).toNat < ([] ++ d :: stale :: ds).length := by
        rw [slot, ← others.length]
        simp
      refine .step there store (setLocal_leads lower) fun m₄ there => ?_
      rw [stored] at there
      refine .step there drop pop_leads fun m₅ there => ?_
      refine .step there leave exit_leads fun m₆ there => ⟨0, m₆, rfl, _, .single others, ?_⟩
      rw [exit_size] at there
      have same : o + (2 + itemsSize items + 6) = o + 2 + itemsSize items +
          (Instr.getLocal (UInt8.ofNat (v :: L).length)).size + (Instr.setLocal (UInt8.ofNat L.length)).size +
            Instr.pop.size + 1 := by
        simp only [Instr.size]
        omega
      rw [same]
      exact there

/-! ## Statements -/

section Statements

variable {fuel : Nat} {top : Bool} {ds : Stmt .declarations} {e : Expr} {a : Stmt .statement}

/-- An expression whose value is dropped. -/
lemma dropped_follows (suits : Suits Γ c) {code : List Instr} (emits : e.tree.Emits Γ L code) (proper : e.tree.Proper)
    (here : Here c r o [] G L env m) (placed : CodeAt c o (code ++ [.pop])) :
    Follows traced r k m (fun _ => Here c r (o + codeSize (code ++ [.pop])) [] G L)
      ((do let _ ← e.eval : Eval Unit) env) := by
  obtain ⟨first, drop, -⟩ := codeAt_append.1 placed
  refine (Expr.follows suits emits proper here first).bind fun d env₁ m₁ there => ?_
  refine there.step drop (fun slots => pop_leads) fun m₂ there => .pure ?_
  rw [codeSize_append, ← Nat.add_assoc]
  exact there

/-- One of two pieces of code is gone through, and the other one is jumped over. -/
lemma conditional_follows (suits : Suits Γ c) {code branch : List Instr} (others : List Instr)
    (emits : e.tree.Emits Γ L code)
    (proper : e.tree.Proper) (fits : codeSize branch + 4 ≤ maxDistance) (fits' : codeSize others + 1 ≤ maxDistance)
    (placed : CodeAt c o (code ++ .jumpIfFalse (UInt16.ofNat (codeSize branch + 4)) :: .pop ::
      (branch ++ .jump (UInt16.ofNat (codeSize others + 1)) :: .pop :: others)))
    (first : ∀ {env m}, Here c r (o + codeSize code + 4) [] G L env m →
      Follows traced r k m (fun _ => Here c r (o + codeSize code + 4 + codeSize branch) [] G L) (act env))
    (second : ∀ {env m}, Here c r (o + codeSize code + 4 + codeSize branch + 4) [] G L env m →
      Follows traced r k m (fun _ => Here c r (o + codeSize code + 4 + codeSize branch + 4 + codeSize others) [] G L)
        (act' env))
    (here : Here c r o [] G L env m) :
    Follows traced r k m
      (fun _ => Here c r (o + codeSize code + 4 + codeSize branch + 4 + codeSize others) [] G L)
      ((do let a ← e.eval; if a.isFalsey then act' else act : Eval Unit) env) := by
  obtain ⟨placed, test, drop, placed'⟩ := codeAt_append.1 placed
  obtain ⟨-, jump, drop', -⟩ := codeAt_append.1 placed'
  refine (Expr.follows suits emits proper here placed).bind fun d env₁ m₁ there => ?_
  cases falsey : d.isFalsey with
  | true =>
    refine there.step test (fun slots => jumpIfFalse_leads falsey) fun m₂ (there : Here c r _ [d] G L env₁ m₂) => ?_
    have skips : o + codeSize code + (Instr.jumpIfFalse (UInt16.ofNat (codeSize branch + 4))).size +
        (UInt16.ofNat (codeSize branch + 4)).toNat = o + codeSize code +
          (Instr.jumpIfFalse (UInt16.ofNat (codeSize branch + 4))).size + Instr.pop.size + codeSize branch +
            (Instr.jump (UInt16.ofNat (codeSize others + 1))).size := by
      rw [distance_toNat fits]
      simp only [Instr.size]
      omega
    rw [skips] at there
    exact there.step drop' (fun slots => pop_leads) fun m₃ there => second there
  | false =>
    refine there.step test (fun slots => jumpIfFalse_stays falsey) fun m₂ (there : Here c r _ [d] G L env₁ m₂) => ?_
    refine there.step drop (fun slots => pop_leads) fun m₃ there => (first there).further fun _ env₂ m₄ there => ?_
    refine there.step jump (fun slots => jump_leads) fun m₅ (there : Here c r _ [] G L env₂ m₅) => ⟨0, m₅, rfl, ?_⟩
    have skips : o + codeSize code + 4 + codeSize branch + 4 + codeSize others = o + codeSize code +
        (Instr.jumpIfFalse (UInt16.ofNat (codeSize branch + 4))).size + Instr.pop.size + codeSize branch +
          (Instr.jump (UInt16.ofNat (codeSize others + 1))).size + (UInt16.ofNat (codeSize others + 1)).toNat := by
      rw [distance_toNat fits']
      simp only [Instr.size]
      omega
    rw [skips]
    exact there

/-- The pieces of a loop are where they should be. -/
lemma loopAt (placed : CodeAt c o (instrs (loopItems L cond increment items))) :
    LoopAt c o cond increment (itemsSize items) ∧
      CodeAt c (o + conditionSize cond + incrementSize increment) (instrs items) ∧
        itemsSize (loopItems L cond increment items) =
          conditionSize cond + incrementSize increment + itemsSize items + 3 + codeSize (exitCode cond) := by
  have size : codeSize (conditionCode increment (itemsSize items) cond) = conditionSize cond := by
    cases cond with
    | none => rfl
    | some is => simp [conditionCode, conditionSize, Instr.size]
  have size' : codeSize (incrementCode cond increment) = incrementSize increment := by
    cases increment with
    | none => rfl
    | some is =>
      simp only [incrementCode, incrementSize, codeSize_cons, codeSize_append, codeSize_nil, Instr.size]
      omega
  simp only [itemsSize, loopItems, instrs_append, instrs_under, codeAt_append, codeSize_append, size, size',
    codeAt_cons, codeSize_cons] at placed ⊢
  obtain ⟨⟨test, step⟩, body, back, exit⟩ := placed
  rw [← Nat.add_assoc] at body back exit
  refine ⟨⟨test, step, back, exit⟩, body, ?_⟩
  simp only [Instr.size]
  omega

/-- A for loop whose first clause declares no variable. -/
lemma forLoop_follows (suits : Suits Γ c) {first : Initializer} {start : List Instr}
    (clause : first.tree.Emits Γ L start)
    (condition : ClauseEmits Γ L (test.map Expr.tree) cond) (advance : ClauseEmits Γ L (step.map Expr.tree) increment)
    (fits : LoopFits cond increment (itemsSize items)) (properFirst : first.tree.Proper)
    (properTest : ClauseProper (test.map Expr.tree)) (properStep : ClauseProper (step.map Expr.tree))
    (placed : CodeAt c o (start ++ instrs (loopItems L cond increment items)))
    (inner : ∀ {k o env m}, k ≤ fuel → CodeAt c o (instrs items) → Here c r o [] G L env m →
      Follows traced r k m (fun _ => Here c r (o + itemsSize items) [] G L) (act env))
    (enough : k ≤ fuel) (here : Here c r o [] G L env m) :
    Follows traced r k m (fun _ => Here c r (o + codeSize start + itemsSize (loopItems L cond increment items)) [] G L)
      ((locally do first.execute; turns test step act fuel) env) := by
  obtain ⟨before, placed⟩ := codeAt_append.1 placed
  obtain ⟨loop, placed, size⟩ := loopAt placed
  have initially : Follows traced r k m (fun _ => Here c r (o + codeSize start) [] G L) (first.execute env) := by
    cases first with
    | none =>
      cases clause
      exact .pure here
    | var => cases clause
    | expression e =>
      cases clause with
      | expression emits => exact dropped_follows suits emits properFirst here before
  have outside : env.locals.length = G.length := by
    obtain ⟨slots, holds, -⟩ := here
    exact holds.length_locals
  have loops := initially.bind fun _ env₁ m₁ there =>
    turns_follow suits test step condition advance properTest properStep fits loop
      (fun enough there => inner enough placed there) enough enough there
  refine (locally_follows [] outside loops trivial).further fun _ env₂ m₂ there => ⟨0, m₂, rfl, there.at ?_⟩
  rw [size]
  simp only [exits, List.map_nil, codeSize_nil]
  omega

/-- A for loop with a variable, of which every turn has its copy. -/
lemma forVar_follows (suits : Suits Γ c) {x : String} {value : Option Expr} {start : List Instr}
    (clause : ValueEmits Γ L (value.map Expr.tree) start) (named : v.name = x) (copyNamed : w.name = x)
    (condition : ClauseEmits Γ (v :: L) (test.map Expr.tree) cond)
    (advance : ClauseEmits Γ (v :: L) (step.map Expr.tree) increment) (localsFit : L.length + 2 ≤ maxOperands)
    (fits : LoopFits cond increment (itemsSize (copyItems (v :: L) L.length w items)))
    (properValue : ClauseProper (value.map Expr.tree)) (properTest : ClauseProper (test.map Expr.tree))
    (properStep : ClauseProper (step.map Expr.tree))
    (placed : CodeAt c o (start ++
      (instrs (loopItems (v :: L) cond increment (copyItems (v :: L) L.length w items)) ++ exits [v])))
    (inner : ∀ {k o env m}, k ≤ fuel → CodeAt c o (instrs items) →
      Here c r o [] (.doubled :: G) (w :: v :: L) env m →
      Follows traced r k m (fun _ => Here c r (o + itemsSize items) [] (.doubled :: G) (w :: v :: L)) (act env))
    (enough : k ≤ fuel) (here : Here c r o [] G L env m) :
    Follows traced r k m
      (fun _ => Here c r (o + codeSize start +
        itemsSize (loopItems (v :: L) cond increment (copyItems (v :: L) L.length w items)) + 1) [] G L)
      ((locally do (Initializer.var x value).execute; turns test step act fuel) env) := by
  obtain ⟨before, placed⟩ := codeAt_append.1 placed
  obtain ⟨placed, leave⟩ := codeAt_append.1 placed
  obtain ⟨loop, placed, size⟩ := loopAt placed
  have outside : env.locals.length = G.length := by
    obtain ⟨slots, holds, -⟩ := here
    exact holds.length_locals
  have initially : Follows traced r k m (fun _ => Here c r (o + codeSize start) [] (.single :: G) (v :: L))
      ((Initializer.var x value).execute env) := by
    refine (initialValue_follows suits clause properValue here before).bind fun d env₁ m₁ there => ?_
    obtain ⟨slots, holds, there⟩ := there
    exact ⟨0, m₁, rfl, d :: slots, named ▸ .single holds, there⟩
  have loops := initially.bind fun _ env₁ m₁ there =>
    turns_follow suits test step condition advance properTest properStep fits loop
      (fun enough there => copy_follows localsFit (copyNamed.trans named.symm) placed
        (fun body there => inner enough body there) there) enough enough there
  have last : o + codeSize start + itemsSize (loopItems (v :: L) cond increment (copyItems (v :: L) L.length w items)) =
      o + codeSize start + conditionSize cond + incrementSize increment +
        itemsSize (copyItems (v :: L) L.length w items) + 3 + codeSize (exitCode cond) := by
    rw [size]
    omega
  rw [← itemsSize, last] at leave
  refine (locally_follows [v] outside loops leave).further fun _ env₂ m₂ there => ⟨0, m₂, rfl, there.at ?_⟩
  rw [last]
  simp [exits, exit_size]

/-- When the code of a phrase is done, the phrase has been executed, and the variables it declares are on the
stack. -/
theorem Stmt.follows (suits : Suits Γ c) {s : StmtSort} {t : Stmt s} (emits : t.tree.Emits Γ top L items L')
    (proper : t.tree.Proper) (enough : k ≤ fuel) (here : Here c r o [] G L env m) (placed : CodeAt c o (instrs items)) :
    Follows traced r k m
      (fun _ => Here c r (o + itemsSize items) [] (List.replicate (L'.length - L.length) .single ++ G) L')
      (t.execute fuel top env) := by
  induction t generalizing top L L' items G k o env m with
  | print e =>
    cases emits with
    | print inner =>
      rw [instrs_framed, instrs_under] at placed
      rw [Nat.sub_self, List.replicate_zero, List.nil_append]
      obtain ⟨first, print, -⟩ := codeAt_append.1 placed
      refine (Expr.follows suits inner proper here first).bind fun d env₁ m₁ there => ?_
      obtain ⟨slots, holds, there⟩ := there
      refine .step there print print_leads fun m₂ there => ⟨0, m₂, rfl, Here.at ⟨slots, holds, there⟩ ?_⟩
      simp [itemsSize, Nat.add_assoc]
  | expression e =>
    cases emits with
    | expression inner =>
      rw [instrs_framed, instrs_under] at placed
      rw [itemsSize, instrs_framed, instrs_under, Nat.sub_self, List.replicate_zero, List.nil_append]
      exact dropped_follows suits inner proper here placed
  | ifThen e t ih =>
    cases emits with
    | ifThen condition branch fits =>
      simp only [instrs_framed, instrs_append, instrs_under, List.append_assoc, List.cons_append,
        List.nil_append] at placed
      rw [Nat.sub_self, List.replicate_zero, List.nil_append]
      have placed' := (codeAt_append.1 (codeAt_append.1 placed).2.2.2).1
      refine (conditional_follows suits [] condition proper.1 fits (by decide) placed
        (fun there => ?_) (fun there => .pure there) here).further fun _ env₁ m₁ there => ⟨0, m₁, rfl, there.at ?_⟩
      · have inner := ih branch proper.2 enough there placed'
        rwa [Nat.sub_self, List.replicate_zero, List.nil_append] at inner
      · simp only [itemsSize, instrs_framed, instrs_append, instrs_under, codeSize_append, codeSize_cons, codeSize_nil,
          Instr.size]
        omega
  | ifElse e t t' ih ih' =>
    cases emits with
    | ifElse condition branch otherwise fits fits' =>
      simp only [instrs_framed, instrs_append, instrs_under, List.append_assoc, List.cons_append,
        List.nil_append] at placed
      rw [Nat.sub_self, List.replicate_zero, List.nil_append]
      obtain ⟨placed', -, -, placed''⟩ := codeAt_append.1 (codeAt_append.1 placed).2.2.2
      refine (conditional_follows suits _ condition proper.1 fits fits' placed
        (fun there => ?_) (fun there => ?_) here).further fun _ env₁ m₁ there => ⟨0, m₁, rfl, there.at ?_⟩
      · have inner := ih branch proper.2.1 enough there placed'
        rwa [Nat.sub_self, List.replicate_zero, List.nil_append] at inner
      · have inner := ih' otherwise proper.2.2 enough there placed''
        rwa [Nat.sub_self, List.replicate_zero, List.nil_append] at inner
      · simp only [itemsSize, instrs_framed, instrs_append, instrs_under, codeSize_append, codeSize_cons, codeSize_nil,
          Instr.size]
        omega
  | whileLoop e body ih =>
    cases emits with
    | whileLoop condition inner fits =>
      rw [instrs_framed] at placed
      rw [itemsSize, instrs_framed, Nat.sub_self, List.replicate_zero, List.nil_append]
      obtain ⟨loop, placed', size⟩ := loopAt placed
      rw [itemsSize] at size
      refine (turns_follow suits (some e) none (.some condition) .none
        (fun x there => Option.some.inj there ▸ proper.1) (fun x there => by cases there) fits loop
        (fun enough there => ?_) enough enough here).further fun _ env₁ m₁ there => ⟨0, m₁, rfl, there.at ?_⟩
      · have turn := ih inner proper.2 enough there placed'
        rwa [Nat.sub_self, List.replicate_zero, List.nil_append] at turn
      · omega
  | forLoop first test step body ih =>
    obtain ⟨properFirst, properTest, properStep, properBody⟩ := proper
    have nothing : ∀ l : List Local, List.replicate (l.length - l.length) Binding.single = [] := by simp
    change Syntax.Stmt.Emits Γ top L (.forLoop first.tree (test.map Expr.tree) (step.map Expr.tree) body.tree) items L'
      at emits
    generalize tree : first.tree = clause at emits properFirst
    cases emits with
    | forLoop clause condition advance inner fits =>
      subst tree
      simp only [instrs_framed, instrs_append, instrs_under] at placed
      rw [nothing, List.nil_append]
      refine (forLoop_follows suits clause condition advance fits properFirst properTest properStep placed
        (fun enough placed there => ?_) enough here).further fun _ env₁ m₁ there => ⟨0, m₁, rfl, there.at ?_⟩
      · have turn := ih inner properBody enough there placed
        rwa [nothing, List.nil_append] at turn
      · simp [itemsSize, Nat.add_assoc]
    | forVar clause named copyNamed condition advance inner localsFit fits =>
      cases first with
      | none | expression => cases tree
      | var x value =>
        cases tree
        simp only [instrs_framed, instrs_append, instrs_under] at placed
        rw [nothing, List.nil_append]
        refine (forVar_follows suits clause named copyNamed condition advance localsFit fits properFirst.2 properTest
          properStep placed (fun enough placed there => ?_) enough here).further
            fun _ env₁ m₁ there => ⟨0, m₁, rfl, there.at ?_⟩
        · have turn := ih inner properBody enough there placed
          rwa [nothing, List.nil_append] at turn
        · simp [itemsSize, exits, exit_size, Nat.add_assoc]
  | block ds ih =>
    cases emits with
    | @block _ _ _ _ items inner declares =>
      simp only [instrs_framed, instrs_append, instrs_under, codeAt_append] at placed
      rw [Nat.sub_self, List.replicate_zero, List.nil_append]
      have outside : env.locals.length = G.length := by
        obtain ⟨slots, holds, -⟩ := here
        exact holds.length_locals
      have first := ih declares proper enough here placed.1
      rw [List.length_append, Nat.add_sub_cancel] at first
      refine (locally_follows inner outside first placed.2).further fun _ env₁ m₁ there => ⟨0, m₁, rfl, there.at ?_⟩
      simp only [itemsSize, instrs_framed, instrs_append, instrs_under, codeSize_append]
      omega
  | statement t ih =>
    cases emits with
    | statement inner => exact ih inner proper enough here placed
  | var x value =>
    cases emits with
    | var inner binds =>
      rw [instrs_framed, instrs_under] at placed
      obtain ⟨first, second⟩ := codeAt_append.1 placed
      refine (initialValue_follows suits inner proper.2 here first).bind fun d env₁ m₁ there => ?_
      refine (declareVariable_follows suits binds there second).further fun _ env₂ m₂ there =>
        ⟨0, m₂, rfl, there.at ?_⟩
      simp [itemsSize, Nat.add_assoc]
  | noDeclarations =>
    cases emits with
    | noDeclarations =>
      rw [Nat.sub_self, List.replicate_zero, List.nil_append]
      exact .pure here
  | declare d ds ih ih' =>
    cases emits with
    | @declare _ _ _ _ _ L₁ _ _ _ first second =>
      rw [instrs_append, codeAt_append] at placed
      refine (ih first proper.1 enough here placed.1).bind fun _ env₁ m₁ there => ?_
      refine (ih' second proper.2 enough there placed.2).further fun _ env₂ m₂ there => ⟨0, m₂, rfl, ?_⟩
      have declared : List.replicate (L'.length - L.length) Binding.single ++ G =
          List.replicate (L'.length - L₁.length) .single ++ (List.replicate (L₁.length - L.length) .single ++ G) := by
        have both : L'.length - L.length = (L'.length - L₁.length) + (L₁.length - L.length) := by
          have := first.length_le
          have := second.length_le
          omega
        rw [both, List.replicate_add, List.append_assoc]
      rw [declared]
      exact there.at (by simp [itemsSize, Nat.add_assoc])

end Statements

end Lox.Plain
