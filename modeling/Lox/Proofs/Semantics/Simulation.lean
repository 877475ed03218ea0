import Lox.Proofs.Compile.Typing
import Lox.Proofs.Semantics.Views

/-!
# Expressions are evaluated as they should be

The machine follows the evaluator (`Follows`): where the evaluator has a value, the machine comes to the
end of the code with it on the stack; where the evaluator stops with an error, so does the machine; and
where the evaluator is out of turns, the machine has made many steps.  The variables in scope are places
on the stack (`Holds`), and the body of a loop sees a copy of the loop variable in its stead.
-/

namespace Lox.Plain

open Compile Syntax

/-! ## Code in place -/

/-- An instruction stands at an offset. -/
def InstrAt (c : Closure) (o : Nat) (i : Instr) : Prop :=
  c.prototype.chunk.instrAt? o = some i ∧ o + i.size ≤ c.prototype.chunk.size

/-- Instructions stand one after the other from an offset on. -/
def CodeAt (c : Closure) : Nat → List Instr → Prop
  | _, [] => True
  | o, i :: is => InstrAt c o i ∧ CodeAt c (o + i.size) is

variable {c : Closure} {r : List String} {o o' : Nat} {i : Instr} {is js : List Instr}

@[simp] lemma codeAt_cons :
    CodeAt c o (i :: is) ↔ InstrAt c o i ∧ CodeAt c (o + i.size) is :=
  Iff.rfl

@[simp] lemma codeAt_nil : CodeAt c o [] := trivial

@[simp] lemma codeAt_append : CodeAt c o (is ++ js) ↔ CodeAt c o is ∧ CodeAt c (o + codeSize is) js := by
  induction is generalizing o with
  | nil => simp
  | cons i is ih => simp [ih, and_assoc, Nat.add_assoc]

/-! ## Following the evaluator -/

variable {α β : Type} {traced : Bool} {k k' n : Nat} {m m' : Machine}

/-- The machine runs to a state of `Q` if the evaluator has a result; it stops with the same error if
there is one; and if the evaluator is out of turns, it makes at least `k` steps. -/
def Follows (traced : Bool) (r : List String) (k : Nat) (m : Machine) (Q : α → Env → Machine → Prop) :
    EStateM.Result Halt Env α → Prop
  | .ok a env => ∃ n m', m.run traced n = (none, m') ∧ Q a env m'
  | .error (.error e) env =>
    ∃ n m', m.run traced n = (some (.failed e), m') ∧ Seen r env.globals env.printed m'
  | .error .outOfTurns _ => ∃ m', m.run traced k = (none, m')

section Follows

variable {Q : α → Env → Machine → Prop} {R : β → Env → Machine → Prop} {a : α} {env : Env}
  {result : EStateM.Result Halt Env α}

/-- A run that has made many steps has made a few. -/
lemma run_le (goesOn : m.run traced n = (none, m')) (less : k ≤ n) : ∃ m₁, m.run traced k = (none, m₁) := by
  obtain ⟨l, rfl⟩ := Nat.exists_eq_add_of_le less
  rw [Machine.run_add] at goesOn
  split at goesOn
  · next m₁ first => exact ⟨m₁, first⟩
  · next stopped => exact absurd goesOn (stopped _)

lemma Follows.pure (here : Q a env m) : Follows traced r k m Q ((pure a : Eval α) env) :=
  ⟨0, m, rfl, here⟩

/-- Some steps may come first. -/
lemma Follows.after (first : m.run traced n = (none, m')) (rest : Follows traced r k m' Q result) :
    Follows traced r (n + k) m Q result := by
  have whole : ∀ j, m.run traced (n + j) = m'.run traced j := by
    intro j
    rw [Machine.run_add, first]
  cases result with
  | ok a env =>
    obtain ⟨j, m₁, runs, holds⟩ := rest
    exact ⟨n + j, m₁, (whole j).trans runs, holds⟩
  | error halt env =>
    cases halt with
    | error e =>
      obtain ⟨j, m₁, runs, holds⟩ := rest
      exact ⟨n + j, m₁, (whole j).trans runs, holds⟩
    | outOfTurns =>
      obtain ⟨m₁, runs⟩ := rest
      exact ⟨m₁, (whole k).trans runs⟩

lemma Follows.fewer (h : Follows traced r k m Q result) (less : k' ≤ k) : Follows traced r k' m Q result := by
  cases result with
  | ok a env => exact h
  | error halt env =>
    cases halt with
    | error e => exact h
    | outOfTurns =>
      obtain ⟨m₁, runs⟩ := h
      exact run_le runs less

/-- One thing is done after the other. -/
lemma Follows.bind {act : Eval α} {f : α → Eval β} (first : Follows traced r k m Q (act env))
    (second : ∀ a env' m', Q a env' m' → Follows traced r k m' R (f a env')) :
    Follows traced r k m R ((act >>= f) env) := by
  show Follows traced r k m R (EStateM.bind act f env)
  unfold EStateM.bind
  cases result : act env with
  | ok a env' =>
    rw [result] at first
    obtain ⟨n, m', runs, holds⟩ := first
    exact (Follows.after runs (second a env' m' holds)).fewer (Nat.le_add_left _ _)
  | error halt env' =>
    rw [result] at first
    cases halt <;> exact first

variable {ds : List Datum} {g : String → Option Datum} {p : List String} {B : Machine → Prop} {e : RuntimeError}

/-- The machine reads the instruction at its offset. -/
lemma At.reads (traced : Bool) (here : At c r o ds g p m) (code : InstrAt c o i) :
    ∃ w, At c r (o + i.size) ds g p w ∧
      Machine.step (if traced then m.noteStep else m) = Machine.exec i w := by
  obtain ⟨decoded, bound⟩ := code
  have watched := here.watched traced
  refine ⟨(if traced then m.noteStep else m).past ⟨c, o, 0⟩ [] i, ⟨rfl, watched.data, ?_⟩, ?_⟩
  · exact ⟨watched.seen.globals, watched.seen.printed, watched.seen.reported, watched.seen.settled⟩
  · rw [Machine.step, Machine.bind_apply, Machine.fetch_apply watched.frames decoded bound]

/-- An instruction is executed, and the rest follows. -/
lemma Follows.turn (here : At c r o ds g p m) (code : InstrAt c o i)
    (leads : Leads i (At c r (o + i.size) ds g p) B)
    (rest : ∀ m', B m' → Follows traced r k m' Q result) : Follows traced r (k + 1) m Q result := by
  obtain ⟨w, there, steps⟩ := here.reads traced code
  obtain ⟨m', executes, holds⟩ := leads w there
  have runs : m.run traced 1 = (none, m') := by
    rw [Machine.run, steps, executes]
    rfl
  rw [Nat.add_comm]
  exact (rest m' holds).after runs

lemma Follows.step (here : At c r o ds g p m) (code : InstrAt c o i)
    (leads : Leads i (At c r (o + i.size) ds g p) B)
    (rest : ∀ m', B m' → Follows traced r k m' Q result) : Follows traced r k m Q result :=
  (Follows.turn here code leads rest).fewer (Nat.le_succ k)

/-- An instruction stops the run. -/
lemma Follows.stop (here : At c r o ds g p m) (code : InstrAt c o i)
    (stops : Stops i (At c r (o + i.size) ds g p) e (Seen r env.globals env.printed)) :
    Follows traced r k m Q ((fail e : Eval α) env) := by
  obtain ⟨w, there, steps⟩ := here.reads traced code
  obtain ⟨m', executes, seen⟩ := stops w there
  refine ⟨1, m', ?_, seen⟩
  rw [Machine.run, steps, executes]

end Follows

/-! ## Variables -/

/-- How a variable is held on the stack. -/
inductive Binding where
  | single
  /-- A loop variable together with its copy for the body, above it. -/
  | doubled

/-- The locals of a function are places on the stack, with slot zero at the bottom; these hold the
variables of an environment. -/
inductive Holds : List Binding → List Local → List Datum → List (String × Datum) → Prop where
  | empty {z d} (named : z.name = "") : Holds [] [z] [d] []
  | single {G L ds locals v d} (others : Holds G L ds locals) :
      Holds (.single :: G) (v :: L) (d :: ds) ((v.name, d) :: locals)
  /-- The value of a loop variable is that of its copy. -/
  | doubled {G L ds locals v w d stale} (named : w.name = v.name) (others : Holds G L ds locals) :
      Holds (.doubled :: G) (w :: v :: L) (d :: stale :: ds) ((v.name, d) :: locals)

section Holds

variable {G : List Binding} {L : List Local} {ds : List Datum} {locals : List (String × Datum)} {x : String}
  {d : Datum} {slot : Nat} {v : Local}

lemma Holds.length (h : Holds G L ds locals) : ds.length = L.length := by
  induction h with
  | empty => rfl
  | single _ ih => simp [ih]
  | doubled _ _ ih => simp [ih]

/-- A variable that is no local is not in the environment either. -/
lemma Holds.missing (h : Holds G L ds locals) (missing : findLocal? x L = none) : look x locals = none := by
  induction h with
  | empty => rfl
  | @single _ _ _ _ v _ _ ih =>
    by_cases named : v.name = x
    · simp [findLocal?, named] at missing
    · simp [findLocal?, named] at missing
      simp [look, named, ih missing]
  | @doubled _ _ _ _ v w _ _ named _ ih =>
    by_cases other : v.name = x
    · simp [findLocal?, named, other] at missing
    · simp [findLocal?, named, other] at missing
      simp [look, other, ih missing]

/-- The value of a variable is on its place. -/
lemma Holds.found (h : Holds G L ds locals) (proper : x ≠ "") (found : findLocal? x L = some (slot, v)) :
    ∃ d, look x locals = some d ∧ fromBottom? ds slot = some d := by
  induction h with
  | empty named => simp [findLocal?, named, proper.symm] at found
  | @single _ L ds _ w d others ih =>
    by_cases named : w.name = x
    · simp [findLocal?, named] at found
      exact ⟨d, by simp [look, named], by simp [fromBottom?_cons, ← found.1, others.length]⟩
    · simp [findLocal?, named] at found
      obtain ⟨d', looks, there⟩ := ih found
      have lower : slot ≠ ds.length := by
        rw [others.length]
        exact Nat.ne_of_lt (findLocal?_lt found)
      exact ⟨d', by simp [look, named, looks], by simp [fromBottom?_cons, lower, there]⟩
  | @doubled _ L ds _ v' w d stale named others ih =>
    by_cases other : v'.name = x
    · simp [findLocal?, named, other] at found
      exact ⟨d, by simp [look, other], by simp [fromBottom?_cons, ← found.1, others.length]⟩
    · simp [findLocal?, named, other] at found
      obtain ⟨d', looks, there⟩ := ih found
      have lower := findLocal?_lt found
      rw [← others.length] at lower
      refine ⟨d', by simp [look, other, looks], ?_⟩
      simp [fromBottom?_cons, Nat.ne_of_lt lower, Nat.ne_of_lt (Nat.lt_succ_of_lt lower), there]

/-- A variable is given another value on its place. -/
lemma Holds.put (h : Holds G L ds locals) (proper : x ≠ "") (found : findLocal? x L = some (slot, v))
    (d : Datum) : Holds G L (setFromBottom ds slot d) (put x d locals) := by
  induction h with
  | empty named => simp [findLocal?, named, proper.symm] at found
  | @single _ L ds _ w e others ih =>
    by_cases named : w.name = x
    · simp [findLocal?, named] at found
      simp [setFromBottom_cons, ← found.1, others.length, Plain.put, named]
      exact named ▸ .single others
    · simp [findLocal?, named] at found
      have lower := findLocal?_lt found
      rw [← others.length] at lower
      simp [setFromBottom_cons, Nat.ne_of_lt lower, Plain.put, named]
      exact .single (ih found)
  | @doubled _ L ds _ v' w e stale named others ih =>
    by_cases other : v'.name = x
    · simp [findLocal?, named, other] at found
      simp [setFromBottom_cons, ← found.1, others.length, Plain.put, other]
      exact other ▸ .doubled named others
    · simp [findLocal?, named, other] at found
      have lower := findLocal?_lt found
      rw [← others.length] at lower
      simp [setFromBottom_cons, Nat.ne_of_lt lower, Nat.ne_of_lt (Nat.lt_succ_of_lt lower), Plain.put, other]
      exact .doubled named (ih found)

end Holds

/-! ## Expressions -/

/-- The script is at an offset: above the variables of the environment there is some more data. -/
def Here (c : Closure) (r : List String) (o : Nat) (temps : List Datum) (G : List Binding) (L : List Local)
    (env : Env) (m : Machine) : Prop :=
  ∃ slots, Holds G L slots env.locals ∧ At c r o (temps ++ slots) env.globals env.printed m

/-- The script is the code of a context, and in no other function. -/
structure Suits (Γ : Context) (c : Closure) : Prop where
  pool : c.prototype.chunk.constants = Γ.constants
  around : Γ.around = []

/-- The script is at an offset, and the value of an expression is above the rest. -/
def Leaves (c : Closure) (r : List String) (o : Nat) (temps : List Datum) (G : List Binding) (L : List Local)
    (d : Datum) (env : Env) (m : Machine) : Prop :=
  Here c r o (d :: temps) G L env m

section Expressions

variable {Γ : Context} {temps : List Datum} {G : List Binding} {L : List Local} {env : Env} {x : String}
  {place : Access} {a b d : Datum}

/-- A step that leaves the variables alone. -/
lemma Here.step {ds ds' : List Datum} {Q : α → Env → Machine → Prop} {result : EStateM.Result Halt Env α}
    (here : Here c r o ds G L env m) (code : InstrAt c o i)
    (leads : ∀ slots, Leads i (At c r (o + i.size) (ds ++ slots) env.globals env.printed)
      (At c r o' (ds' ++ slots) env.globals env.printed))
    (rest : ∀ m', Here c r o' ds' G L env m' → Follows traced r k m' Q result) :
    Follows traced r k m Q result := by
  obtain ⟨slots, holds, here⟩ := here
  exact .step here code (leads slots) fun m' there => rest m' ⟨slots, holds, there⟩

/-- A variable that a name leads to is a local or a global. -/
lemma Resolves.cases (leads : Resolves Γ L x place) (around : Γ.around = []) :
    (∃ slot v, place = .slot (UInt8.ofNat slot) ∧ findLocal? x L = some (slot, v) ∧ slot < maxOperands) ∨
      ∃ index, place = .globalName index ∧ findLocal? x L = none ∧ Γ.IsName index x := by
  cases leads with
  | slot found fits => exact .inl ⟨_, _, rfl, found, fits⟩
  | captured missing chain =>
    rw [around] at chain
    cases chain
  | globalName missing nowhere constant => exact .inr ⟨_, rfl, missing, constant⟩

lemma readVariable_follows (suits : Suits Γ c) (proper : ProperName x) (leads : Resolves Γ L x place)
    (here : Here c r o temps G L env m) (code : InstrAt c o place.read) :
    Follows traced r k m (Leaves c r (o + place.read.size) temps G L) (readVariable x env) := by
  obtain ⟨slots, holds, here⟩ := here
  rcases Resolves.cases leads suits.around with
    ⟨slot, v, rfl, found, fits⟩ | ⟨index, rfl, missing, object, entry, named⟩
  · obtain ⟨d, looks, there⟩ := holds.found proper.1 found
    have known : env.find? x = some d := by simp [Env.find?, looks]
    have place : fromBottom? (temps ++ slots) (UInt8.ofNat slot).toNat = some d := by
      rw [UInt8.toNat_ofNat_of_lt' fits, fromBottom?_append_of_lt (holds.length ▸ findLocal?_lt found), there]
    have reads : readVariable x env = (pure d : Eval Datum) env := readVariable_known known
    rw [reads]
    exact .step here code (getLocal_leads place) fun m' there => .pure ⟨slots, holds, there⟩
  · rw [← suits.pool] at entry
    have found : env.find? x = env.globals x := by simp [Env.find?, holds.missing missing]
    cases known : env.globals x with
    | some d =>
      have reads : readVariable x env = (pure d : Eval Datum) env := readVariable_known (found.trans known)
      rw [reads]
      exact .step here code (getGlobal_leads entry (named ▸ known)) fun m' there => .pure ⟨slots, holds, there⟩
    | none =>
      have fails : readVariable x env = (fail (.undefinedVariable x) : Eval Datum) env :=
        readVariable_unknown (found.trans known)
      rw [fails, ← named]
      exact .stop here code (getGlobal_stops entry (named ▸ known))

lemma writeVariable_follows (suits : Suits Γ c) (proper : ProperName x) (leads : Resolves Γ L x place)
    (here : Here c r o (d :: temps) G L env m) (code : InstrAt c o place.write) :
    Follows traced r k m (fun _ => Here c r (o + place.write.size) (d :: temps) G L)
      (writeVariable x d env) := by
  obtain ⟨slots, holds, here⟩ := here
  rcases Resolves.cases leads suits.around with
    ⟨slot, v, rfl, found, fits⟩ | ⟨index, rfl, missing, object, entry, named⟩
  · obtain ⟨e, looks, there⟩ := holds.found proper.1 found
    have writes : writeVariable x d env = .ok () { env with locals := put x d env.locals } := by
      have known : (env.find? x).isSome := by simp [Env.find?, looks]
      show (if (env.find? x).isSome then _ else _ : Eval Unit) env = _
      rw [if_pos known]
      show EStateM.Result.ok () (env.assign x d) = _
      rw [Env.assign, looks]
      rfl
    have lower : (UInt8.ofNat slot).toNat < slots.length := by
      rw [UInt8.toNat_ofNat_of_lt' fits, holds.length]
      exact findLocal?_lt found
    have lower' : (UInt8.ofNat slot).toNat < (temps ++ slots).length := by
      rw [List.length_append]
      exact Nat.lt_add_left _ lower
    rw [writes]
    refine .step here code (setLocal_leads lower') fun m' there => ⟨0, m', rfl, _, holds.put proper.1 found d, ?_⟩
    have same : d :: temps ++ setFromBottom slots slot d =
        d :: setFromBottom (temps ++ slots) (UInt8.ofNat slot).toNat d := by
      rw [setFromBottom_append _ _ _ lower, UInt8.toNat_ofNat_of_lt' fits]
      rfl
    rw [same]
    exact there
  · rw [← suits.pool] at entry
    have looks := holds.missing missing
    have found : env.find? x = env.globals x := by simp [Env.find?, looks]
    cases known : env.globals x with
    | some e =>
      have writes : writeVariable x d env = .ok () (env.define x d) := by
        have known : (env.find? x).isSome := by simp [found, known]
        show (if (env.find? x).isSome then _ else _ : Eval Unit) env = _
        rw [if_pos known]
        show EStateM.Result.ok () (env.assign x d) = _
        rw [Env.assign, looks]
        rfl
      have there : (env.globals object.content).isSome := by
        rw [named, known]
        rfl
      rw [writes]
      exact .step here code (setGlobal_leads entry there) fun m' there => ⟨0, m', rfl, slots, holds, named ▸ there⟩
    | none =>
      have fails : writeVariable x d env = (fail (.undefinedVariable x) : Eval Unit) env := by
        have unknown : ¬(env.find? x).isSome := by simp [found, known]
        show (if (env.find? x).isSome then _ else _ : Eval Unit) env = _
        rw [if_neg unknown]
      rw [fails, ← named]
      exact .stop here code (setGlobal_stops entry (named ▸ known))

/-! ### Operators -/

lemma UnaryOp.follows {op : UnaryOp} (word : leading? op.token = some (.unary i))
    (here : Here c r o (d :: temps) G L env m) (code : InstrAt c o i) :
    Follows traced r k m (Leaves c r (o + i.size) temps G L) (op.apply d env) := by
  cases op with
  | not =>
    cases word
    exact here.step code (fun slots => not_leads) fun m' there => .pure there
  | negate =>
    cases word
    cases d with
    | number x => exact here.step code (fun slots => negate_leads) fun m' there => .pure there
    | _ =>
      obtain ⟨slots, holds, here⟩ := here
      exact .stop here code (negate_stops fun x => by simp)

/-- Two numbers are replaced, and the rest follows. -/
lemma numeric_follows {f : Float → Float → Value} {f' : Float → Float → Datum} {Q : Datum → Env → Machine → Prop}
    (means : Machine.exec i = Machine.numeric f) (here : Here c r o (b :: a :: temps) G L env m)
    (code : InstrAt c o i)
    (rest : ∀ x y m', Here c r (o + i.size) ((f x y).datum :: temps) G L env m' →
      Follows traced r k m' Q ((pure (f' x y) : Eval Datum) env)) :
    Follows traced r k m Q (numeric f' a b env) := by
  by_cases numbers : ∃ x y, a = .number x ∧ b = .number y
  · obtain ⟨x, y, rfl, rfl⟩ := numbers
    exact here.step code (fun slots => numeric_leads means) (rest x y)
  · have others : ∀ x y, a = .number x → b ≠ .number y := fun x y number number' =>
      numbers ⟨x, y, number, number'⟩
    have fails : numeric f' a b env = (fail .operandsNotNumbers : Eval Datum) env := by
      unfold numeric
      split
      · next x y => exact absurd rfl (others x y rfl)
      · rfl
    obtain ⟨slots, holds, here⟩ := here
    rw [fails]
    exact .stop here code (numeric_stops means others)

/-- A comparison is negated. -/
lemma negation_follows {t : Bool} (here : Here c r o (.bool t :: temps) G L env m) (code : InstrAt c o .not) :
    Follows traced r k m (Leaves c r (o + Instr.not.size) temps G L) ((pure (.bool !t) : Eval Datum) env) := by
  have falsey : (Datum.bool t).isFalsey = !t := by cases t <;> rfl
  rw [← falsey]
  exact here.step code (fun slots => not_leads) fun m' there => .pure there

lemma add_follows (here : Here c r o (b :: a :: temps) G L env m) (code : InstrAt c o .add) :
    Follows traced r k m (Leaves c r (o + Instr.add.size) temps G L) (BinaryOp.add.apply a b env) := by
  by_cases numbers : ∃ x y, a = .number x ∧ b = .number y
  · obtain ⟨x, y, rfl, rfl⟩ := numbers
    exact here.step code (fun slots => add_numbers_leads) fun m' there => .pure there
  by_cases strings : ∃ s t, a = .string s ∧ b = .string t
  · obtain ⟨s, t, rfl, rfl⟩ := strings
    exact here.step code (fun slots => add_strings_leads) fun m' there => .pure there
  have fails : BinaryOp.add.apply a b env = (fail .operandsNotAddable : Eval Datum) env := by
    cases a with
    | number x =>
      cases b with
      | number y => exact absurd ⟨x, y, rfl, rfl⟩ numbers
      | _ => rfl
    | string s =>
      cases b with
      | string t => exact absurd ⟨s, t, rfl, rfl⟩ strings
      | _ => rfl
    | _ => rfl
  obtain ⟨slots, holds, here⟩ := here
  rw [fails]
  exact .stop here code (add_stops (fun x y number number' => numbers ⟨x, y, number, number'⟩)
    fun s t string string' => strings ⟨s, t, string, string'⟩)

lemma BinaryOp.follows {op : BinaryOp} {prec : Precedence} (word : trailing? op.token = some (prec, .binary is))
    (here : Here c r o (b :: a :: temps) G L env m) (code : CodeAt c o is) :
    Follows traced r k m (Leaves c r (o + codeSize is) temps G L) (op.apply a b env) := by
  cases op <;> cases word
  case add => exact add_follows here code.1
  case subtract =>
    exact numeric_follows (f := fun x y => .number (x - y)) rfl here code.1 fun x y m' there => .pure there
  case multiply =>
    exact numeric_follows (f := fun x y => .number (x * y)) rfl here code.1 fun x y m' there => .pure there
  case divide =>
    exact numeric_follows (f := fun x y => .number (x / y)) rfl here code.1 fun x y m' there => .pure there
  case equal => exact here.step code.1 (fun slots => equal_leads) fun m' there => .pure there
  case notEqual =>
    exact here.step code.1 (fun slots => equal_leads) fun m' there => negation_follows there code.2.1
  case less =>
    exact numeric_follows (f := fun x y => .bool (decide (x < y))) rfl here code.1 fun x y m' there => .pure there
  case lessEqual =>
    exact numeric_follows (f := fun x y => .bool (decide (x > y))) rfl here code.1 fun x y m' there =>
      negation_follows there code.2.1
  case greater =>
    exact numeric_follows (f := fun x y => .bool (decide (x > y))) rfl here code.1 fun x y m' there => .pure there
  case greaterEqual =>
    exact numeric_follows (f := fun x y => .bool (decide (x < y))) rfl here code.1 fun x y m' there =>
      negation_follows there code.2.1

/-- An expression has its value on the stack when its code is done, and nothing else there has changed but
the variables it assigns to. -/
theorem Expr.follows (suits : Suits Γ c) {e : Expr} {code : List Instr} (emits : e.tree.Emits Γ L code)
    (proper : e.tree.Proper) (here : Here c r o temps G L env m) (placed : CodeAt c o code) :
    Follows traced r k m (Leaves c r (o + codeSize code) temps G L) (e.eval env) := by
  induction e generalizing o temps env m code with
  | number text =>
    cases emits with
    | number constant =>
      exact here.step placed.1 (fun slots => constant_leads (suits.pool ▸ constant)) fun m' there => .pure there
  | string text =>
    cases emits with
    | string constant =>
      obtain ⟨object, entry, content⟩ := constant
      have eval : (Plain.Expr.string text).eval env = (pure (.string object.content) : Eval Datum) env := by
        rw [content]
        rfl
      rw [eval]
      exact here.step placed.1 (fun slots => constant_leads (suits.pool ▸ entry)) fun m' there => .pure there
  | nil =>
    cases emits with
    | literal word =>
      cases word
      exact here.step placed.1 (fun slots => pushNil_leads) fun m' there => .pure there
  | bool b =>
    cases b with
    | false =>
      cases emits with
      | literal word =>
        cases word
        exact here.step placed.1 (fun slots => pushFalse_leads) fun m' there => .pure there
    | true =>
      cases emits with
      | literal word =>
        cases word
        exact here.step placed.1 (fun slots => pushTrue_leads) fun m' there => .pure there
  | name x =>
    cases emits with
    | name leads => exact readVariable_follows suits proper leads here placed.1
  | assign x value ih =>
    cases emits with
    | assign inner leads =>
      obtain ⟨first, second⟩ := codeAt_append.1 placed
      refine (ih inner proper.2 here first).bind fun d env₁ m₁ there => ?_
      refine (writeVariable_follows suits proper.1 leads there second.1).bind fun _ env₂ m₂ there => .pure ?_
      rw [codeSize_append, ← Nat.add_assoc]
      exact there
  | grouping e ih =>
    cases emits with
    | grouping inner => exact ih inner proper here placed
  | unary op e ih =>
    cases emits with
    | unary word inner =>
      obtain ⟨first, second⟩ := codeAt_append.1 placed
      rw [codeSize_append, ← Nat.add_assoc]
      exact (ih inner proper here first).bind fun d env₁ m₁ there => UnaryOp.follows word there second.1
  | binary op _ _ ihl ihr =>
    cases emits with
    | binary word left right =>
      obtain ⟨first, second⟩ := codeAt_append.1 placed
      obtain ⟨second, third⟩ := codeAt_append.1 second
      rw [codeSize_append, codeSize_append, ← Nat.add_assoc, ← Nat.add_assoc]
      refine (ihl left proper.1 here first).bind fun a env₁ m₁ there => ?_
      exact (ihr right proper.2 there second).bind fun b env₂ m₂ there => BinaryOp.follows word there third
  | and _ _ ihl ihr =>
    cases emits with
    | @and _ left _ right first second fits =>
      obtain ⟨placed, jump, drop, placed'⟩ := codeAt_append.1 placed
      refine (ihl first proper.1 here placed).bind fun a env₁ m₁ there => ?_
      cases falsey : a.isFalsey with
      | true =>
        have stays : o + codeSize left + 3 + (UInt16.ofNat (codeSize right + 1)).toNat =
            o + codeSize (left ++ .jumpIfFalse (UInt16.ofNat (codeSize right + 1)) :: .pop :: right) := by
          rw [distance_toNat fits]
          simp [Instr.size]
          omega
        simp only [↓reduceIte]
        exact there.step jump (fun slots => jumpIfFalse_leads falsey) fun m' there => .pure (stays ▸ there)
      | false =>
        have ends : o + codeSize left + 3 + 1 + codeSize right =
            o + codeSize (left ++ .jumpIfFalse (UInt16.ofNat (codeSize right + 1)) :: .pop :: right) := by
          simp [Instr.size]
          omega
        simp only [Bool.false_eq_true, ↓reduceIte]
        refine there.step jump (fun slots => jumpIfFalse_stays falsey)
          fun m' (there : Here c r _ (a :: temps) G L env₁ m') => ?_
        refine there.step drop (fun slots => pop_leads) fun m' there => ?_
        exact ends ▸ ihr second proper.2 there placed'
  | or _ _ ihl ihr =>
    cases emits with
    | @or _ left _ right first second fits =>
      obtain ⟨placed, test, jump, drop, placed'⟩ := codeAt_append.1 placed
      refine (ihl first proper.1 here placed).bind fun a env₁ m₁ there => ?_
      have ends : o + codeSize left + 3 + 3 + 1 + codeSize right =
          o + codeSize (left ++ .jumpIfFalse 3 :: .jump (UInt16.ofNat (codeSize right + 1)) :: .pop :: right) := by
        simp [Instr.size]
        omega
      cases falsey : a.isFalsey with
      | true =>
        simp only [↓reduceIte]
        refine there.step test (fun slots => jumpIfFalse_leads falsey)
          fun m' (there : Here c r _ (a :: temps) G L env₁ m') => ?_
        refine there.step drop (fun slots => pop_leads) fun m' there => ?_
        exact ends ▸ ihr second proper.2 there placed'
      | false =>
        have stays : o + codeSize left + 3 + 3 + (UInt16.ofNat (codeSize right + 1)).toNat =
            o + codeSize (left ++ .jumpIfFalse 3 :: .jump (UInt16.ofNat (codeSize right + 1)) :: .pop :: right) := by
          rw [← ends, distance_toNat fits]
          omega
        simp only [Bool.false_eq_true, ↓reduceIte]
        refine there.step test (fun slots => jumpIfFalse_stays falsey)
          fun m' (there : Here c r _ (a :: temps) G L env₁ m') => ?_
        exact there.step jump (fun slots => jump_leads) fun m' there => .pure (stays ▸ there)

end Expressions

end Lox.Plain
