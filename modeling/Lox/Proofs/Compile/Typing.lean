import Lox.Proofs.Bytecode.Block
import Lox.Proofs.Compile.Emission
import Lox.Proofs.Syntax.Names

/-!
# The shapes of compiled code

Code that the compiler emits for a tree is a block: entered with the locals in scope on the stack,
and whatever lies above them, it is left with the locals in scope after it, and with the value on
top if the tree is an expression (`Expr.Emits.shaped`, `Stmt.Emits.shaped`).  So a function as a whole
agrees with shapes that start with its parameters (`Compiled.ends`), and so does every function inside
it (`Compiled.contains`).

A local keeps its value for as long as its scope lasts, so a cell may refer to it just if it is
captured in the end.  The hidden local of a superclass is the only one of which more is known: it
holds a class.  No assignment can reach it, since a program has no name for it.
-/

namespace Lox.Compile

open Syntax

/-! ## Locals -/

/-- What is known of the place of a local variable. -/
def Local.slot (v : Local) : Slot := ⟨if v.name = "super" then .cls else .any, v.isCaptured⟩

/-- What is known of the places of local variables. -/
def slotsOf (L : List Local) : List Slot := L.map Local.slot

@[simp] lemma slotsOf_cons (v : Local) (L : List Local) : slotsOf (v :: L) = v.slot :: slotsOf L :=
  rfl

@[simp] lemma slotsOf_append (L L' : List Local) : slotsOf (L ++ L') = slotsOf L ++ slotsOf L' :=
  List.map_append

@[simp] lemma length_slotsOf (L : List Local) : (slotsOf L).length = L.length := List.length_map _

@[simp] lemma length_namesOf (L : List Local) : (namesOf L).length = L.length := List.length_map _

lemma Local.slot_of_ne {v : Local} (other : v.name ≠ "super") : v.slot = ⟨.any, v.isCaptured⟩ := by
  rw [Local.slot, if_neg other]

lemma findLocal?_named {x : String} {L : List Local} {slot : Nat} {v : Local}
    (found : findLocal? x L = some (slot, v)) : v.name = x := by
  induction L with
  | nil => cases found
  | cons w outer ih =>
    rw [findLocal?] at found
    by_cases named : w.name = x
    · rw [if_pos named] at found
      obtain ⟨-, rfl⟩ := Prod.mk.inj (Option.some.inj found)
      exact named
    · rw [if_neg named] at found
      exact ih found

/-- The number of a local is the number of locals further out. -/
lemma findLocal?_fromBottom {x : String} {L : List Local} {slot : Nat} {v : Local}
    (found : findLocal? x L = some (slot, v)) : fromBottom? L slot = some v := by
  induction L with
  | nil => cases found
  | cons w outer ih =>
    rw [findLocal?] at found
    rw [fromBottom?_cons]
    by_cases named : w.name = x
    · rw [if_pos named] at found
      obtain ⟨rfl, rfl⟩ := Prod.mk.inj (Option.some.inj found)
      rw [if_pos rfl]
    · rw [if_neg named] at found
      rw [if_neg (Nat.ne_of_lt (findLocal?_lt found))]
      exact ih found

lemma findLocal?_place {x : String} {L : List Local} {slot : Nat} {v : Local}
    (found : findLocal? x L = some (slot, v)) : fromBottom? (slotsOf L) slot = some v.slot := by
  rw [slotsOf, fromBottom?_map, findLocal?_fromBottom found]
  rfl

lemma findLocal?_head {x : String} {v : Local} {L : List Local} (named : v.name = x) :
    findLocal? x (v :: L) = some (L.length, v) := if_pos named

/-! ## Captured variables -/

lemma CapturedAs.lt {x : String} {captures : Array Capture} {around : List Scope} {index : UInt8}
    (h : CapturedAs x captures around index) : index.toNat < captures.size := by
  cases h with
  | here entry | further entry => exact (Array.getElem?_eq_some_iff.1 entry).1

/-- A captured variable has one name. -/
lemma CapturedAs.unique {x y : String} {captures : Array Capture} {around : List Scope}
    {index : UInt8} (h : CapturedAs x captures around index)
    (h' : CapturedAs y captures around index) : x = y := by
  induction h with
  | here entry found _ fits =>
    cases h' with
    | here entry' found' _ fits' =>
      have same := Option.some.inj (entry.symm.trans entry')
      have places := congrArg UInt8.toNat (Capture.mk.inj same).2
      rw [UInt8.toNat_ofNat_of_lt' fits, UInt8.toNat_ofNat_of_lt' fits'] at places
      subst places
      have both := (findLocal?_fromBottom found).symm.trans (findLocal?_fromBottom found')
      rw [← findLocal?_named found, ← findLocal?_named found', Option.some.inj both]
    | further entry' => cases entry.symm.trans entry'
  | further entry _ _ ih =>
    cases h' with
    | here entry' => cases entry.symm.trans entry'
    | further entry' _ chain =>
      have same := Option.some.inj (entry.symm.trans entry')
      rw [← (Capture.mk.inj same).2] at chain
      exact ih chain

open Classical in
/-- What is known of a captured variable: the superclass is a class. -/
noncomputable def Context.captured (Γ : Context) (i : Nat) : Kind :=
  if CapturedAs "super" Γ.captures Γ.around (UInt8.ofNat i) then .cls else .any

lemma Context.captured_of {Γ : Context} {x : String} {index : UInt8}
    (h : CapturedAs x Γ.captures Γ.around index) :
    Γ.captured index.toNat = if x = "super" then .cls else .any := by
  rw [Context.captured, UInt8.ofNat_toNat]
  by_cases superclass : x = "super"
  · rw [if_pos superclass, if_pos (superclass ▸ h)]
  · rw [if_neg superclass, if_neg fun h' => superclass (h.unique h')]

/-! ## Compiled functions -/

/-- The items of the function of a context, which starts with locals `start`. -/
inductive Compiled : Prototype → Context → List Local → List Item → Prop where
  | script {p Γ v items L} {ds : Stmt .declarations} (kind : Γ.kind = .script) (around : Γ.around = [])
      (named : v.name = "") (emits : ds.Emits Γ true [v] items L) (proper : ds.Proper)
      (assembles : Assembles p "" 0 Γ items L) :
      Compiled p Γ [v] (items ++ under L (returnCode Γ.kind))
  | function {p Γ x params start items L} {ds : Stmt .declarations} (kind : Γ.kind ≠ .script)
      (entry : ParameterLocals Γ.kind params start) (proper : ∀ y ∈ params, ProperName y)
      (emits : ds.Emits Γ false start items L) (proper' : ds.Proper)
      (assembles : Assembles p x params.length Γ items L) :
      Compiled p Γ start (items ++ under L (returnCode Γ.kind))

/-- Closures of the prototype capture variables of these kinds. -/
def ClosedOver (p : Prototype) (kinds : Nat → Kind) : Prop :=
  ∃ Γ start items, Compiled p Γ start items ∧ kinds = Γ.captured

/-- What the operands of the function's instructions refer to. -/
noncomputable def Context.surroundings (Γ : Context) : Surroundings :=
  ⟨Γ.constants, Γ.captures.size, Γ.captured, ClosedOver⟩

/-! ## Reading and writing variables -/

variable {Γ : Context} {L : List Local} {x : String} {place : Access} {slots ts : List Slot}
  {g : Option String}

/-- Instructions that reach values above the locals in scope. -/
lemma spares_above (ts : List Slot) {i : Instr} (reach : i.reach ≤ ts.length) :
    Spares (namesOf L) (Shape.height ⟨ts ++ slotsOf L, g⟩) i := by
  refine Or.inl ?_
  rw [length_namesOf, Shape.height_mk, List.length_append, length_slotsOf]
  omega

/-- A variable can be read, whatever is known of the locals. -/
lemma Resolves.read_block (leads : Resolves Γ L x place) (enough : L.length ≤ slots.length) :
    Block Γ.surroundings ⟨slots, g⟩ (under L [place.read]) ⟨.plain :: slots, g⟩ := by
  have refines : ∀ k, Shape.Refines ⟨⟨k, false⟩ :: slots, g⟩ ⟨.plain :: slots, g⟩ := fun k =>
    ⟨.cons (Slot.refines_plain k false) (List.forall₂_same.2 fun s _ => .refl s), fun _ known => known⟩
  have spares : Spares (namesOf L) (Shape.height ⟨slots, g⟩) place.read := by
    refine Or.inl ?_
    rw [length_namesOf]
    cases place <;> exact enough
  cases leads with
  | @slot slot v found fits =>
    obtain ⟨s, there⟩ := fromBottom?_of_lt (Nat.lt_of_lt_of_le (findLocal?_lt found) enough)
    have exec : Exec Γ.surroundings (.getLocal (UInt8.ofNat slot)) ⟨slots, g⟩ _ :=
      .getLocal (s := s) (by rw [UInt8.toNat_ofNat_of_lt' fits]; exact there)
    exact (Block.instr exec spares).mono (.refl _) (refines s.kind)
  | captured _ chain =>
    exact (Block.instr (.getUpvalue chain.lt) spares).mono (.refl _) (refines _)
  | globalName _ _ constant =>
    exact (Block.instr (.getGlobal (T := Γ.surroundings) constant) spares).mono (.refl _) (refines _)

/-- The superclass is read as a class. -/
lemma Resolves.read_super (leads : Resolves Γ L "super" place) (bound : place.IsBound)
    (ts : List Slot) (g : Option String) :
    Block Γ.surroundings ⟨ts ++ slotsOf L, g⟩ (under L [place.read])
      ⟨⟨.cls, false⟩ :: (ts ++ slotsOf L), g⟩ := by
  have spares : Spares (namesOf L) (Shape.height ⟨ts ++ slotsOf L, g⟩) place.read :=
    spares_above _ (by cases place <;> exact Nat.zero_le _)
  cases leads with
  | @slot slot v found fits =>
    have there : fromBottom? (ts ++ slotsOf L) (UInt8.ofNat slot).toNat = some v.slot := by
      rw [UInt8.toNat_ofNat_of_lt' fits,
        fromBottom?_append_of_lt (by rw [length_slotsOf]; exact findLocal?_lt found)]
      exact findLocal?_place found
    have kind : v.slot.kind = .cls := if_pos (findLocal?_named found)
    have exec := Exec.getLocal (T := Γ.surroundings) (g := g) there
    rw [kind] at exec
    exact .instr exec spares
  | @captured index _ chain =>
    have exec : Exec Γ.surroundings (.getUpvalue index) ⟨ts ++ slotsOf L, g⟩
        ⟨⟨Γ.captured index.toNat, false⟩ :: (ts ++ slotsOf L), g⟩ := .getUpvalue chain.lt
    rw [Γ.captured_of chain, if_pos rfl] at exec
    exact .instr exec spares
  | globalName => exact bound.elim

/-- A variable that a program can name takes any value. -/
lemma Resolves.write_block (leads : Resolves Γ L x place) (proper : x ≠ "super") {s : Slot} :
    Block Γ.surroundings ⟨s :: ts ++ slotsOf L, g⟩ (under L [place.write])
      ⟨s :: ts ++ slotsOf L, none⟩ := by
  have spares : Spares (namesOf L) (Shape.height ⟨s :: ts ++ slotsOf L, g⟩) place.write :=
    spares_above _ (by cases place <;> exact Nat.succ_le_succ (Nat.zero_le _))
  have nonempty : s :: ts ++ slotsOf L ≠ [] := List.cons_ne_nil _ _
  cases leads with
  | @slot slot v found fits =>
    have there : fromBottom? (s :: ts ++ slotsOf L) (UInt8.ofNat slot).toNat =
        some ⟨.any, v.isCaptured⟩ := by
      rw [UInt8.toNat_ofNat_of_lt' fits,
        fromBottom?_append_of_lt (by rw [length_slotsOf]; exact findLocal?_lt found),
        findLocal?_place found, Local.slot_of_ne (by rw [findLocal?_named found]; exact proper)]
    exact .instr (.setLocal nonempty there) spares
  | captured _ chain =>
    have kind := Γ.captured_of chain
    rw [if_neg proper] at kind
    exact .instr (.setUpvalue nonempty chain.lt kind) spares
  | globalName _ _ constant => exact .instr (.setGlobal (T := Γ.surroundings) nonempty constant) spares

/-! ## Expressions -/

/-- So many values that nothing is known of. -/
def values (n : Nat) : List Slot := List.replicate n .plain

@[simp] lemma length_values (n : Nat) : (values n).length = n := List.length_replicate

lemma unshared_values (n : Nat) : Unshared (values n) := by
  intro s there
  rw [List.eq_of_mem_replicate there]
  rfl

lemma values_succ (n : Nat) (ts : List Slot) : values (n + 1) ++ ts = values n ++ .plain :: ts := by
  rw [values, List.replicate_succ', List.append_assoc]
  rfl

/-- The values that a phrase leaves on the stack. -/
def results : (s : ExprSort) → Expr s → List Slot
  | .expression, _ => [.plain]
  | .argumentList, args => values args.count
  | .arguments, args => values args.count

lemma under_append (L : List Local) (is js : List Instr) :
    under L (is ++ js) = under L is ++ under L js := inScope_append _ _ _

lemma under_cons (L : List Local) (i : Instr) (is : List Instr) :
    under L (i :: is) = .instr i (namesOf L) :: under L is := rfl

/-- The instructions of a binary operator. -/
lemma binary_block {T : Surroundings} {op : TokenKind} {p : Precedence} {is : List Instr}
    (word : trailing? op = some (p, .binary is)) :
    Block T ⟨.plain :: .plain :: ts ++ slotsOf L, none⟩ (under L is)
      ⟨.plain :: ts ++ slotsOf L, none⟩ := by
  have spares : ∀ i : Instr, i.IsBinary →
      Spares (namesOf L) (Shape.height ⟨.plain :: .plain :: ts ++ slotsOf L, none⟩) i := by
    rintro i ⟨⟩ <;> exact spares_above _ (Nat.le_add_left _ _)
  have single : ∀ i : Instr, i.IsBinary → Block T ⟨.plain :: .plain :: ts ++ slotsOf L, none⟩
      (under L [i]) ⟨.plain :: ts ++ slotsOf L, none⟩ :=
    fun i kind => .instr (.binary kind) (spares i kind)
  have negated : ∀ i : Instr, i.IsBinary → Block T ⟨.plain :: .plain :: ts ++ slotsOf L, none⟩
      (under L [i, .not]) ⟨.plain :: ts ++ slotsOf L, none⟩ := by
    intro i kind
    refine (single i kind).seq (.instr (.unary .not) ?_)
    exact spares_above _ (Nat.le_add_left _ _)
  cases op <;> cases word <;> first
    | exact single _ (by constructor)
    | exact negated _ (by constructor)

lemma distance_toNat {n : Nat} (fits : n ≤ maxDistance) : (UInt16.ofNat n).toNat = n :=
  UInt16.toNat_ofNat_of_lt' (Nat.lt_succ_of_le fits)

lemma count_toNat {n : Nat} (fits : n ≤ maxArity) : (UInt8.ofNat n).toNat = n :=
  UInt8.toNat_ofNat_of_lt' (Nat.lt_succ_of_le fits)

end Lox.Compile

namespace Lox.Syntax

open Compile

variable {Γ : Context} {L : List Local}

/-- A call leaves its value in the place of the callee and its arguments. -/
lemma call_block {T : Surroundings} {i : Instr} {n : Nat} {ts : List Slot} (count : i.reach = n + 1)
    (exec : Exec T i ⟨values (n + 1) ++ (ts ++ slotsOf L), none⟩
      ⟨.plain :: (ts ++ slotsOf L), none⟩) :
    Block T ⟨values n ++ .plain :: (ts ++ slotsOf L), none⟩ (under L [i])
      ⟨.plain :: (ts ++ slotsOf L), none⟩ := by
  rw [← values_succ]
  refine .instr exec (Or.inl ?_)
  simp only [length_namesOf, Shape.height_mk, List.length_append, length_values, length_slotsOf,
    count]
  omega

/-- The code of an expression leaves its value on the stack, and that of arguments their values. -/
theorem Expr.Emits.shaped {s : ExprSort} {e : Expr s} {code : List Instr} (h : e.Emits Γ L code)
    (proper : e.Proper) (ts : List Slot) :
    Block Γ.surroundings ⟨ts ++ slotsOf L, none⟩ (under L code)
      ⟨results s e ++ (ts ++ slotsOf L), none⟩ := by
  have enough : ∀ ts : List Slot, L.length ≤ (ts ++ slotsOf L).length := fun ts => by
    rw [List.length_append, length_slotsOf]
    exact Nat.le_add_left _ _
  induction h generalizing ts with
  | number constant =>
    exact .instr (.constant constant fun _ other => nomatch other) (spares_above _ (Nat.zero_le _))
  | string constant =>
    obtain ⟨object, entry, -⟩ := constant
    exact .instr (.constant entry fun _ other => nomatch other) (spares_above _ (Nat.zero_le _))
  | @literal kind i word =>
    have literal : i.IsLiteral := by
      cases kind <;> cases word <;> constructor
    refine .instr (.literal literal) (spares_above ts ?_)
    cases literal <;> exact Nat.zero_le _
  | name leads => exact leads.read_block (enough ts)
  | assign _ leads ih =>
    rw [under_append]
    exact (ih proper.2 ts).seq (leads.write_block proper.1.2.2)
  | this leads => exact leads.read_block (enough ts)
  | superGet constant self leads bound =>
    have receiver := self.read_block (g := none) (enough ts)
    have home := leads.read_super bound (.plain :: ts) none
    exact receiver.seq (home.andThen (.getSuper constant)
      (spares_above (⟨.cls, false⟩ :: .plain :: ts) (Nat.le_add_left _ _)))
  | @superCall m args index receiver home code constant self inner leads bound fits ih =>
    have first := self.read_block (g := none) (enough ts)
    have second := ih proper (.plain :: ts)
    have third := leads.read_super bound (values args.count ++ .plain :: ts) none
    have call : Exec Γ.surroundings (.superInvoke index (UInt8.ofNat args.count))
        ⟨⟨.cls, false⟩ :: (values (args.count + 1) ++ (ts ++ slotsOf L)), none⟩
        ⟨.plain :: (ts ++ slotsOf L), none⟩ :=
      .superInvoke constant (by rw [length_values, count_toNat fits]) (unshared_values _)
    rw [values_succ] at call
    rw [List.append_assoc] at third
    rw [under_cons, under_append]
    refine first.seq (second.seq (.seq third (.instr call (Or.inl ?_))))
    simp only [length_namesOf, Shape.height_mk, List.length_append, List.length_cons,
      length_values, length_slotsOf, Instr.reach, count_toNat fits]
    omega
  | grouping _ ih => exact ih proper ts
  | @unary op i _ _ word _ ih =>
    have unary : i.IsUnary := by
      cases op <;> cases word <;> constructor
    rw [under_append]
    refine (ih proper ts).andThen (.unary unary) (spares_above (.plain :: ts) ?_)
    cases unary <;> exact Nat.le_add_left _ _
  | binary word _ _ ih ih' =>
    rw [under_append, under_append]
    exact (ih proper.1 ts).seq ((ih' proper.2 (.plain :: ts)).seq (binary_block word))
  | @and l left r right _ _ fits ih ih' =>
    have dropped : Block Γ.surroundings ⟨.plain :: ts ++ slotsOf L, none⟩
        (under L (.pop :: right)) ⟨.plain :: ts ++ slotsOf L, none⟩ :=
      .step .pop (spares_above _ (Nat.le_add_left _ _)) (ih' proper.2 ts)
    rw [under_append, under_cons]
    refine (ih proper.1 ts).seq (.skip ?_ (List.cons_ne_nil _ _) ?_ dropped)
    · rw [distance_toNat fits, itemsSize, instrs_under, codeSize_cons, Instr.size, Nat.add_comm]
    · exact spares_above (.plain :: ts) (Nat.le_add_left _ _)
  | @or l left r right _ _ fits ih ih' =>
    have dropped : Block Γ.surroundings ⟨.plain :: ts ++ slotsOf L, none⟩
        (under L (.pop :: right)) ⟨.plain :: ts ++ slotsOf L, none⟩ :=
      .step .pop (spares_above _ (Nat.le_add_left _ _)) (ih' proper.2 ts)
    rw [under_append, under_cons, under_cons]
    refine (ih proper.1 ts).seq (@Block.branch _ _ _ [] _ _ _ _ rfl ?_ (List.cons_ne_nil _ _) ?_ ?_ (.nil _ _)
      dropped)
    · rw [distance_toNat fits, itemsSize, instrs_under, codeSize_cons, Instr.size, Nat.add_comm]
    · exact spares_above (.plain :: ts) (Nat.le_add_left _ _)
    · exact spares_above (.plain :: ts) (Nat.zero_le _)
  | call _ _ fits ih ih' =>
    rw [under_append, under_append]
    refine (ih proper.1 ts).seq ((ih' proper.2 (.plain :: ts)).seq (call_block ?_ ?_))
    · rw [Instr.reach, count_toNat fits]
    · exact .call (by rw [length_values, count_toNat fits]) (unshared_values _)
  | get _ constant ih =>
    rw [under_append]
    exact (ih proper ts).andThen (.getProperty constant)
      (spares_above (.plain :: ts) (Nat.le_add_left _ _))
  | set _ constant _ ih ih' =>
    rw [under_append, under_append]
    exact (ih proper.1 ts).seq ((ih' proper.2 (.plain :: ts)).andThen (.setProperty constant)
      (spares_above (.plain :: .plain :: ts) (Nat.le_add_left _ _)))
  | invoke _ constant _ fits ih ih' =>
    rw [under_append, under_append]
    refine (ih proper.1 ts).seq ((ih' proper.2 (.plain :: ts)).seq (call_block ?_ ?_))
    · rw [Instr.reach, count_toNat fits]
    · exact .invoke constant (by rw [length_values, count_toNat fits]) (unshared_values _)
  | noArguments => exact .nil _ _
  | someArguments _ ih => exact ih proper ts
  | lastArgument _ ih => exact ih proper ts
  | @argument e code args others _ _ ih ih' =>
    have both := (ih proper.1 ts).seq (ih' proper.2 (.plain :: ts))
    have more : results .arguments (.argument e args) = values (args.count + 1) := rfl
    rw [more, values_succ, under_append]
    exact both

variable {Γ' : Context} {T : Surroundings} {L' : List Local} {items : List Item} {x : String}

/-! ## Pieces of statements -/

lemma framed_block (h : Block T ⟨slotsOf L, none⟩ items ⟨slotsOf L', none⟩) :
    Block T ⟨slotsOf L, none⟩ (framed L items L') ⟨slotsOf L', none⟩ := by
  have first : Block T ⟨slotsOf L, none⟩ [.boundary (namesOf L)] ⟨slotsOf L, none⟩ :=
    .boundary T (by rw [Shape.height_mk, length_slotsOf, length_namesOf])
  have last : Block T ⟨slotsOf L', none⟩ [.boundary (namesOf L')] ⟨slotsOf L', none⟩ :=
    .boundary T (by rw [Shape.height_mk, length_slotsOf, length_namesOf])
  exact first.seq (h.seq last)

/-- Only locals that no cell refers to are just dropped. -/
lemma exits_block (inner L : List Local) :
    Block T ⟨slotsOf (inner ++ L), none⟩ (under L (exits inner)) ⟨slotsOf L, none⟩ := by
  induction inner with
  | nil => exact .nil T _
  | cons v inner ih =>
    have reach : ∀ i : Instr, i.reach = 1 →
        Spares (namesOf L) (Shape.height ⟨slotsOf (v :: inner ++ L), none⟩) i := by
      intro i reach
      refine Or.inl ?_
      rw [length_namesOf, Shape.height_mk, length_slotsOf, List.length_append, List.length_cons,
        reach]
      omega
    by_cases captured : v.isCaptured = true
    · rw [exits, List.map_cons, if_pos captured]
      exact .step .closeUpvalue (reach .closeUpvalue rfl) ih
    · rw [exits, List.map_cons, if_neg captured]
      have place : v.slot = ⟨if v.name = "super" then .cls else .any, false⟩ := by
        rw [Local.slot, Bool.eq_false_iff.2 captured]
      have pop : Exec T .pop ⟨slotsOf (v :: inner ++ L), none⟩ ⟨slotsOf (inner ++ L), none⟩ := by
        rw [List.cons_append, slotsOf_cons, place]
        exact .pop
      exact .step pop (reach .pop rfl) ih

lemma return_ends (some : L ≠ []) (kind : BodyKind) :
    Ends T ⟨slotsOf L, none⟩ (under L (returnCode kind)) := by
  have last : ∀ k : Kind, Ends T ⟨⟨k, false⟩ :: slotsOf L, none⟩ (under L [.ret]) := fun k =>
    .ret rfl (spares_above [⟨k, false⟩] (Nat.le_refl _))
  have nothing : Ends T ⟨slotsOf L, none⟩ (under L [.pushNil, .ret]) :=
    .after (.instr (.literal .pushNil) (spares_above [] (Nat.zero_le _))) (last _)
  cases kind with
  | initializer =>
    have bound : 0 < (slotsOf L).length := by
      rw [length_slotsOf]
      exact List.length_pos_iff.2 some
    obtain ⟨s, there⟩ := fromBottom?_of_lt bound
    exact .after (.instr (.getLocal there) (spares_above [] (Nat.zero_le _))) (last _)
  | script | function | method => exact nothing

/-- The place of a value that nothing is known of may become that of a variable. -/
lemma slots_named (k : Kind) {v : Local} (named : v.name ≠ "super") (L : List Local)
    (g : Option String) :
    Shape.Refines ⟨⟨k, false⟩ :: slotsOf L, g⟩ ⟨slotsOf (v :: L), none⟩ := by
  refine ⟨.cons ?_ (List.forall₂_same.2 fun s _ => .refl s), fun _ known => nomatch known⟩
  rw [Local.slot_of_ne named]
  exact Slot.refines_plain k v.isCaptured

lemma value_block {value : Option (Expr .expression)} {code : List Instr}
    (h : ValueEmits Γ L value code) (proper : ClauseProper value) :
    Block Γ.surroundings ⟨slotsOf L, none⟩ (under L code) ⟨.plain :: slotsOf L, none⟩ := by
  cases h with
  | none => exact .instr (.literal .pushNil) (spares_above [] (Nat.zero_le _))
  | some inner => exact inner.shaped (proper _ rfl) []

lemma binds_block {top : Bool} {define : List Instr} (h : Binds Γ L x top define L')
    (proper : x ≠ "super") {k : Kind} (other : k ≠ .cls) :
    Block Γ.surroundings ⟨⟨k, false⟩ :: slotsOf L, none⟩ (under L define) ⟨slotsOf L', none⟩ := by
  cases h with
  | @global index constant =>
    have exec : Exec Γ.surroundings (.defineGlobal index) ⟨⟨k, false⟩ :: slotsOf L, none⟩
        ⟨slotsOf L, if k = .cls then some x else none⟩ := .defineGlobal constant
    rw [if_neg other] at exec
    exact .instr exec (spares_above [_] (Nat.le_refl _))
  | slot named =>
    exact (Block.nil _ _).mono (slots_named k (named ▸ proper) L none) (.refl _)

/-- Where names lead if declarations are those of globals. -/
structure Sane (Γ : Context) (top : Bool) (L : List Local) : Prop where
  nonempty : L ≠ []
  global : top = true → Γ.around = [] ∧ namesOf L = [""]

lemma Sane.inner {top : Bool} (h : Sane Γ top L) : Sane Γ false L :=
  ⟨h.nonempty, fun top => nomatch top⟩

lemma Sane.cons (Γ : Context) (v : Local) (L : List Local) : Sane Γ false (v :: L) :=
  ⟨List.cons_ne_nil _ _, fun top => nomatch top⟩

lemma Sane.binds {top : Bool} {define : List Instr} (h : Sane Γ top L)
    (binds : Binds Γ L x top define L') : Sane Γ top L' := by
  cases binds with
  | global => exact h
  | slot => exact .cons Γ _ L

/-! ## Loops -/

section Loops

variable {c step : Option (List Instr)} {body : List Item}

lemma test_block (cond : ∀ is ∈ c, Block T ⟨slotsOf L, none⟩ (under L is) ⟨.plain :: slotsOf L, none⟩)
    (fits : LoopFits c step (itemsSize body)) :
    ∃ τ, Test T ⟨slotsOf L, none⟩ (under L (conditionCode step (itemsSize body) c))
        (incrementSize step + itemsSize body + 3) τ ∧
      Block T τ (under L (exitCode c)) ⟨slotsOf L, none⟩ := by
  cases c with
  | none => exact ⟨_, .always T _ _ _, .nil T _⟩
  | some is =>
    have far := distance_toNat (fits.exit rfl)
    refine ⟨⟨.plain :: slotsOf L, none⟩, ?_, .instr .pop (spares_above [.plain] (Nat.le_refl _))⟩
    rw [conditionCode, under_append]
    refine .condition (cond is rfl) (spares_above [.plain] (Nat.le_refl _))
      (spares_above [.plain] (Nat.le_refl _)) ?_
    rw [far]
    omega

lemma size_condition (n : Nat) :
    itemsSize (under L (conditionCode step n c)) = conditionSize c := by
  cases c with
  | none => rfl
  | some is =>
    simp only [itemsSize, instrs_under, conditionCode, conditionSize, codeSize_append,
      codeSize_cons, codeSize_nil, Instr.size]

/-- A loop leaves the stack as it was. -/
lemma loop_block
    (cond : ∀ is ∈ c, Block T ⟨slotsOf L, none⟩ (under L is) ⟨.plain :: slotsOf L, none⟩)
    (advance : ∀ is ∈ step, Block T ⟨slotsOf L, none⟩ (under L is) ⟨.plain :: slotsOf L, none⟩)
    (inner : Block T ⟨slotsOf L, none⟩ body ⟨slotsOf L, none⟩)
    (fits : LoopFits c step (itemsSize body)) :
    Block T ⟨slotsOf L, none⟩ (loopItems L c step body) ⟨slotsOf L, none⟩ := by
  have spares : ∀ i : Instr, i.reach = 0 →
      Spares (namesOf L) (Shape.height ⟨slotsOf L, none⟩) i :=
    fun i reach => spares_above [] (Nat.le_of_eq reach)
  obtain ⟨τ, test, exit⟩ := test_block cond fits
  have back := distance_toNat fits.back
  rw [loopItems]
  cases step with
  | none =>
    rw [incrementCode, List.append_nil, under_cons]
    rw [incrementSize, Nat.zero_add] at test
    refine .loop test inner exit ?_ (spares _ rfl)
    rw [back, backDistance, size_condition]
  | some is =>
    have again := distance_toNat (fits.increment is rfl)
    have next : Block T ⟨slotsOf L, none⟩ (under L (is ++ [Instr.pop])) ⟨slotsOf L, none⟩ := by
      rw [under_append]
      exact (advance is rfl).andThen .pop (spares_above [.plain] (Nat.le_refl _))
    have size : itemsSize (under L (is ++ [Instr.pop])) = codeSize is + 1 := by
      simp only [itemsSize, instrs_under, codeSize_append, codeSize_cons, codeSize_nil, Instr.size]
    have ahead : codeSize is + 4 ≤ maxDistance := by
      have longer := fits.increment is rfl
      omega
    have code : under L (conditionCode (some is) (itemsSize body) c ++ incrementCode c (some is)) =
        under L (conditionCode (some is) (itemsSize body) c) ++
          (Item.instr (.jump (UInt16.ofNat (codeSize is + 4))) (namesOf L) ::
            (under L (is ++ [Instr.pop]) ++
              [Item.instr (.loop (UInt16.ofNat (conditionSize c + codeSize is + 7))) (namesOf L)])) := by
      rw [incrementCode, under_append, under_cons, under_append, under_append, List.append_assoc]
      rfl
    rw [code, List.append_assoc, List.cons_append, List.append_assoc, List.singleton_append,
      under_cons]
    have apart : incrementSize (some is) + itemsSize body + 3 =
        3 + (itemsSize (under L (is ++ [Instr.pop])) + 3) + itemsSize body + 3 := by
      rw [size, incrementSize]
      omega
    rw [apart] at test
    refine .loopWithStep test next inner exit ?_ ?_ ?_ spares
    · rw [distance_toNat ahead, size]
    · rw [again, size_condition, size]
      omega
    · rw [back, backDistance, size]

end Loops

/-! ## Functions -/

section Functions

variable {kind : BodyKind} {p : Prototype} {name : String} {params : Nat} {stop : List Local}

/-- The captures of a function that are locals of the function around it are locals in scope. -/
lemma Assembles.local_lt (assembles : Assembles p name params Γ' items stop)
    (inside : Inside Γ' kind Γ L) {capture : Capture} (there : capture ∈ Γ'.captures.toList)
    (direct : capture.isLocal = true) :
    ∃ y v, findLocal? y L = some (capture.index.toNat, v) ∧ v.isCaptured = true := by
  obtain ⟨i, bound, rfl⟩ := List.mem_iff_getElem.1 there
  rw [Array.length_toList] at bound
  obtain ⟨y, captured⟩ := assembles.captured i bound
  have index : (UInt8.ofNat i).toNat = i :=
    UInt8.toNat_ofNat_of_lt' (Nat.lt_of_lt_of_le bound assembles.capturesFit)
  rw [inside.around] at captured
  rw [Array.getElem_toList] at direct ⊢
  cases captured with
  | @here _ _ _ _ slot v entry found marked fits =>
    rw [index, Array.getElem?_eq_getElem bound] at entry
    rw [Option.some.inj entry, UInt8.toNat_ofNat_of_lt' fits]
    exact ⟨y, v, found, marked⟩
  | further entry =>
    rw [index, Array.getElem?_eq_getElem bound] at entry
    rw [Option.some.inj entry] at direct
    cases direct

/-- A closure can be made of a function where its captured locals are in place, or else the last one
is to be the closure itself. -/
lemma closure_exec {index : UInt8} {slots : List Slot} {g : Option String}
    (assembles : Assembles p name params Γ' items stop) (inside : Inside Γ' kind Γ L)
    (closes : ClosedOver p Γ'.captured) (constant : Γ.constants[index.toNat]? = some (.prototype p))
    (placed : ∀ y slot v, findLocal? y L = some (slot, v) →
      fromBottom? slots slot = some v.slot ∨ slot = slots.length ∧ v.name ≠ "super") :
    Exec Γ.surroundings (.closure index Γ'.captures.toList) ⟨slots, g⟩
      ⟨closureSlot slots.length Γ'.captures.toList :: slots, none⟩ := by
  have count : Γ'.captures.toList.length = p.captureCount := by
    rw [Array.length_toList, assembles.captureCount]
  refine .closure constant closes count assembles.distinct fun i bound => ?_
  rw [Array.length_toList] at bound
  obtain ⟨y, captured⟩ := assembles.captured i bound
  have small : (UInt8.ofNat i).toNat = i :=
    UInt8.toNat_ofNat_of_lt' (Nat.lt_of_lt_of_le bound assembles.capturesFit)
  have known := Γ'.captured_of captured
  rw [small] at known
  rw [known, Array.getElem_toList, Surroundings.Finds]
  rw [inside.around] at captured
  cases captured with
  | @here _ _ _ _ slot v entry found marked fits =>
    rw [small, Array.getElem?_eq_getElem bound] at entry
    rw [Option.some.inj entry, if_pos rfl, UInt8.toNat_ofNat_of_lt' fits]
    have named := findLocal?_named found
    rcases placed y slot v found with there | ⟨top, other⟩
    · left
      rw [there, Local.slot, named, marked]
    · rw [named] at other
      exact .inr ⟨top, if_neg other⟩
  | @further _ _ _ _ outer entry missing chain =>
    rw [small, Array.getElem?_eq_getElem bound] at entry
    rw [Option.some.inj entry, if_neg Bool.false_ne_true]
    exact ⟨chain.lt, Γ.captured_of chain⟩

/-- A closure that is not among its own captures. -/
lemma closureSlot_apart {height : Nat} (assembles : Assembles p name params Γ' items stop)
    (inside : Inside Γ' kind Γ L) (above : L.length ≤ height) :
    closureSlot height Γ'.captures.toList = ⟨.closure, false⟩ := by
  refine if_neg ?_
  rintro ⟨capture, there, direct, own⟩
  obtain ⟨y, v, found, -⟩ := assembles.local_lt inside there direct
  have lower := findLocal?_lt found
  omega

lemma function_block {top : Bool} {define : List Instr} {index : UInt8}
    (assembles : Assembles p name params Γ' items stop) (inside : Inside Γ' kind Γ L')
    (closes : ClosedOver p Γ'.captured) (constant : Γ.constants[index.toNat]? = some (.prototype p))
    (binds : Binds Γ L x top define L') (proper : x ≠ "super") :
    Block Γ.surroundings ⟨slotsOf L, none⟩
      (under L (.closure index Γ'.captures.toList :: define)) ⟨slotsOf L', none⟩ := by
  have spares : Spares (namesOf L) (Shape.height ⟨slotsOf L, none⟩)
      (.closure index Γ'.captures.toList) := spares_above [] (Nat.zero_le _)
  rw [under_cons]
  cases binds with
  | global global_ =>
    have placed : ∀ y slot v, findLocal? y L = some (slot, v) →
        fromBottom? (slotsOf L) slot = some v.slot ∨
          slot = (slotsOf L).length ∧ v.name ≠ "super" :=
      fun y slot v found => .inl (findLocal?_place found)
    have exec := closure_exec (g := none) assembles inside closes constant placed
    rw [closureSlot_apart assembles inside (Nat.le_of_eq (length_slotsOf L).symm)] at exec
    exact .step exec spares (binds_block (.global global_) proper (by rintro ⟨⟩))
  | @slot w named fits =>
    have placed : ∀ y slot v, findLocal? y (w :: L) = some (slot, v) →
        fromBottom? (slotsOf L) slot = some v.slot ∨
          slot = (slotsOf L).length ∧ v.name ≠ "super" := by
      intro y slot v found
      rw [findLocal?] at found
      by_cases same : w.name = y
      · rw [if_pos same] at found
        obtain ⟨rfl, rfl⟩ := Prod.mk.inj (Option.some.inj found)
        exact .inr ⟨(length_slotsOf L).symm, named ▸ proper⟩
      · rw [if_neg same] at found
        exact .inl (findLocal?_place found)
    have exec := closure_exec (g := none) assembles inside closes constant placed
    refine (Block.instr exec spares).mono (.refl _) ?_
    refine ⟨.cons ?_ (List.forall₂_same.2 fun s _ => .refl s), by rintro _ ⟨⟩⟩
    rw [Local.slot_of_ne (named ▸ proper), closureSlot]
    split
    · next own =>
      obtain ⟨capture, there, direct, last⟩ := own
      obtain ⟨y, v, found, marked⟩ := assembles.local_lt inside there direct
      rw [last, length_slotsOf] at found
      have here := findLocal?_fromBottom found
      rw [fromBottom?_cons, if_pos rfl] at here
      rw [Option.some.inj here, marked]
      exact .refl _
    · exact Slot.refines_plain .closure w.isCaptured

lemma method_block {index m : UInt8} (assembles : Assembles p name params Γ' items stop)
    (inside : Inside Γ' kind Γ L) (closes : ClosedOver p Γ'.captured)
    (constant : Γ.constants[index.toNat]? = some (.prototype p)) (named : Γ.IsName m x) :
    Block Γ.surroundings ⟨⟨.cls, false⟩ :: slotsOf L, none⟩
      (under L [.closure index Γ'.captures.toList, .method m])
      ⟨⟨.cls, false⟩ :: slotsOf L, none⟩ := by
  have placed : ∀ y slot v, findLocal? y L = some (slot, v) →
      fromBottom? (⟨.cls, false⟩ :: slotsOf L) slot = some v.slot ∨
        slot = List.length (⟨.cls, false⟩ :: slotsOf L) ∧ v.name ≠ "super" := by
    intro y slot v found
    left
    rw [fromBottom?_cons, length_slotsOf, if_neg (Nat.ne_of_lt (findLocal?_lt found))]
    exact findLocal?_place found
  have exec := closure_exec (g := none) assembles inside closes constant placed
  have above : L.length ≤ List.length (⟨.cls, false⟩ :: slotsOf L) := by
    rw [List.length_cons, length_slotsOf]
    exact Nat.le_succ _
  rw [closureSlot_apart assembles inside above] at exec
  exact .step exec (spares_above [_] (Nat.zero_le _))
    (.instr (.method named) (spares_above [_, _] (Nat.le_refl _)))

end Functions

/-! ## Classes -/

/-- The variable of a class that has just been made leads to the class, also past a hidden local. -/
lemma class_reads {top : Bool} {define : List Instr} (binds : Binds Γ L x top define L')
    (sane : Sane Γ top L) (proper : ProperName x) :
    ∃ σ, Block Γ.surroundings ⟨⟨.cls, false⟩ :: slotsOf L, none⟩ (under L define) σ ∧
      σ.Refines ⟨slotsOf L', none⟩ ∧
      ∀ (hidden : List Local) (ts : List Slot) (place : Access), ts.length = hidden.length →
        (∀ v ∈ hidden, v.name ≠ x) → Resolves Γ (hidden ++ L') x place →
        Block Γ.surroundings ⟨ts ++ σ.slots, σ.global⟩ (under (hidden ++ L') [place.read])
          ⟨⟨.cls, false⟩ :: (ts ++ σ.slots), σ.global⟩ := by
  have skip : ∀ (hidden L : List Local), (∀ v ∈ hidden, v.name ≠ x) →
      findLocal? x (hidden ++ L) = findLocal? x L := by
    intro hidden L others
    induction hidden with
    | nil => rfl
    | cons v hidden ih =>
      rw [List.cons_append, findLocal?, if_neg (others v List.mem_cons_self)]
      exact ih fun w there => others w (List.mem_cons_of_mem _ there)
  cases binds with
  | @global index constant =>
    have exec : Exec Γ.surroundings (.defineGlobal index) ⟨⟨.cls, false⟩ :: slotsOf L, none⟩
        ⟨slotsOf L, some x⟩ := .defineGlobal (k := .cls) constant
    refine ⟨⟨slotsOf L, some x⟩, .instr exec (spares_above [_] (Nat.le_refl _)), .forget _ _, ?_⟩
    obtain ⟨around, names⟩ := sane.global rfl
    have missing : findLocal? x L = none := by
      cases L with
      | nil => rfl
      | cons v outer =>
        obtain ⟨first, rest⟩ := List.cons.inj names
        have named : v.name = "" := first
        rw [findLocal?, if_neg (fun same => proper.1 (same.symm.trans named)),
          List.map_eq_nil_iff.1 rest]
        rfl
    intro hidden ts place length others leads
    have spares : Spares (namesOf (hidden ++ L)) (Shape.height ⟨ts ++ slotsOf L, some x⟩)
        place.read := by
      refine Or.inl ?_
      rw [length_namesOf, Shape.height_mk, List.length_append, List.length_append, length_slotsOf,
        length]
      cases place <;> exact Nat.le_refl _
    cases leads with
    | slot found =>
      rw [skip hidden L others, missing] at found
      cases found
    | captured _ chain =>
      rw [around] at chain
      cases chain
    | @globalName index _ _ constant =>
      have exec : Exec Γ.surroundings (.getGlobal index) ⟨ts ++ slotsOf L, some x⟩
          ⟨⟨if some x = some x then .cls else .any, false⟩ :: (ts ++ slotsOf L), some x⟩ :=
        .getGlobal constant
      rw [if_pos rfl] at exec
      exact .instr exec spares
  | @slot w named fits =>
    refine ⟨_, .nil _ _, slots_named .cls (named ▸ proper.2.2) L none, ?_⟩
    intro hidden ts place length others leads
    have spares : Spares (namesOf (hidden ++ w :: L))
        (Shape.height ⟨ts ++ ⟨.cls, false⟩ :: slotsOf L, none⟩) place.read := by
      refine Or.inl ?_
      simp only [length_namesOf, Shape.height_mk, List.length_append, List.length_cons,
        length_slotsOf, length]
      cases place <;> exact Nat.le_refl _
    have first : findLocal? x (hidden ++ w :: L) = some (L.length, w) := by
      rw [skip hidden _ others]
      exact findLocal?_head named
    cases leads with
    | @slot _ _ found _ =>
      obtain ⟨rfl, rfl⟩ := Prod.mk.inj (Option.some.inj (first.symm.trans found))
      have there : fromBottom? (ts ++ ⟨.cls, false⟩ :: slotsOf L) (UInt8.ofNat L.length).toNat =
          some ⟨.cls, false⟩ := by
        rw [UInt8.toNat_ofNat_of_lt' fits, fromBottom?_append_of_lt, fromBottom?_cons,
          length_slotsOf, if_pos rfl]
        rw [List.length_cons, length_slotsOf]
        exact Nat.lt_succ_self _
      exact .instr (.getLocal there) spares
    | captured missing => cases first.symm.trans missing
    | globalName missing => cases first.symm.trans missing

/-! ## Statements -/

/-- What lies above the locals in scope where a phrase starts: methods are added to a class. -/
def held : StmtSort → List Slot
  | .methods => [⟨.cls, false⟩]
  | _ => []

/-- Shapes with the same locals and something above them. -/
lemma refines_above {σ : Shape} (h : σ.Refines ⟨slotsOf L, none⟩) {s t : Slot} (above : s.Refines t) :
    Shape.Refines ⟨s :: σ.slots, σ.global⟩ ⟨t :: slotsOf L, none⟩ :=
  ⟨.cons above h.slots, fun _ known => nomatch known⟩

lemma clause_block {c : Option (Expr .expression)} {code : Option (List Instr)}
    (h : ClauseEmits Γ L c code) (proper : ClauseProper c) :
    ∀ is ∈ code, Block Γ.surroundings ⟨slotsOf L, none⟩ (under L is) ⟨.plain :: slotsOf L, none⟩ := by
  intro is there
  cases h with
  | none => cases there
  | some inner =>
    obtain rfl := Option.some.inj there
    exact inner.shaped (proper _ rfl) []

lemma initializer_block {first : Initializer} {code : List Instr}
    (h : Initializer.Emits Γ L first code) (proper : first.Proper) :
    Block Γ.surroundings ⟨slotsOf L, none⟩ (under L code) ⟨slotsOf L, none⟩ := by
  cases h with
  | none => exact .nil _ _
  | expression inner =>
    rw [under_append]
    exact (inner.shaped proper []).andThen .pop (spares_above [_] (Nat.le_refl _))

/-- A conditional whose condition is dropped on both ways. -/
lemma conditional_block {cond : List Instr} {body others : List Item} {n m : Nat}
    (condition : Block T ⟨slotsOf L, none⟩ (under L cond) ⟨.plain :: slotsOf L, none⟩)
    (branch : Block T ⟨slotsOf L, none⟩ body ⟨slotsOf L, none⟩)
    (otherwise : Block T ⟨slotsOf L, none⟩ others ⟨slotsOf L, none⟩)
    (far : n = itemsSize body + 4) (far' : m = itemsSize others + 1)
    (fits : n ≤ maxDistance) (fits' : m ≤ maxDistance) :
    Block T ⟨slotsOf L, none⟩
      (under L (cond ++ [.jumpIfFalse (UInt16.ofNat n), .pop]) ++
        (body ++ (under L [.jump (UInt16.ofNat m), .pop] ++ others))) ⟨slotsOf L, none⟩ := by
  have one : ∀ i : Instr, i.reach = 1 →
      Spares (namesOf L) (Shape.height ⟨.plain :: slotsOf L, none⟩) i :=
    fun i reach => spares_above [.plain] (Nat.le_of_eq reach)
  rw [under_append, List.append_assoc]
  refine condition.seq ?_
  refine @Block.branch T ⟨.plain :: slotsOf L, none⟩ ⟨slotsOf L, none⟩
    (.instr .pop (namesOf L) :: body) (.instr .pop (namesOf L) :: others) (namesOf L)
    (UInt16.ofNat n) (UInt16.ofNat m) ?_ ?_ (List.cons_ne_nil _ _) (one _ rfl)
    (spares_above [] (Nat.zero_le _)) (.step .pop (one _ rfl) branch)
    (.step .pop (one _ rfl) otherwise)
  · rw [distance_toNat fits, far]
    simp only [itemsSize, instrs_instr, codeSize_cons, Instr.size]
    omega
  · rw [distance_toNat fits', far']
    simp only [itemsSize, instrs_instr, codeSize_cons, Instr.size]
    omega

/-- A turn of a loop on a copy of its variable. -/
lemma copy_block {v w : Local} {body : List Item} (named : v.name ≠ "super")
    (copyNamed : w.name ≠ "super") (fits : L.length + 2 ≤ maxOperands)
    (inner : Block T ⟨slotsOf (w :: v :: L), none⟩ body ⟨slotsOf (w :: v :: L), none⟩) :
    Block T ⟨slotsOf (v :: L), none⟩ (copyItems (v :: L) L.length w body)
      ⟨slotsOf (v :: L), none⟩ := by
  have outer : (UInt8.ofNat L.length).toNat = L.length :=
    UInt8.toNat_ofNat_of_lt' (show L.length < maxOperands by omega)
  have own : (UInt8.ofNat (v :: L).length).toNat = (v :: L).length :=
    UInt8.toNat_ofNat_of_lt' (show L.length + 1 < maxOperands by omega)
  have place : fromBottom? (slotsOf (v :: L)) L.length = some ⟨.any, v.isCaptured⟩ := by
    rw [slotsOf_cons, fromBottom?_cons, length_slotsOf, if_pos rfl, Local.slot_of_ne named]
  have copied : Exec T (.getLocal (UInt8.ofNat L.length)) ⟨slotsOf (v :: L), none⟩
      ⟨.plain :: slotsOf (v :: L), none⟩ := .getLocal (by rw [outer]; exact place)
  have fetched : Exec T (.getLocal (UInt8.ofNat (v :: L).length)) ⟨slotsOf (w :: v :: L), none⟩
      ⟨.plain :: slotsOf (w :: v :: L), none⟩ := by
    refine .getLocal (s := ⟨.any, w.isCaptured⟩) ?_
    rw [own, slotsOf_cons, fromBottom?_cons, length_slotsOf, if_pos rfl, Local.slot_of_ne copyNamed]
  have stored : Exec T (.setLocal (UInt8.ofNat L.length)) ⟨.plain :: slotsOf (w :: v :: L), none⟩
      ⟨.plain :: slotsOf (w :: v :: L), none⟩ := by
    have lower : L.length < (slotsOf (v :: L)).length := by
      rw [length_slotsOf]
      exact Nat.lt_succ_self _
    have there : fromBottom? (.plain :: slotsOf (w :: v :: L)) (UInt8.ofNat L.length).toNat =
        some ⟨.any, v.isCaptured⟩ := by
      rw [outer, ← place]
      exact @fromBottom?_append_of_lt _ [.plain, w.slot] _ _ lower
    exact .setLocal (List.cons_ne_nil _ _) there
  have first : Block T ⟨slotsOf (v :: L), none⟩ (under (v :: L) [.getLocal (UInt8.ofNat L.length)])
      ⟨slotsOf (w :: v :: L), none⟩ :=
    (Block.instr copied (spares_above [] (Nat.zero_le _))).mono (.refl _)
      (slots_named .any copyNamed _ none)
  have back : Block T ⟨slotsOf (w :: v :: L), none⟩
      (under (w :: v :: L) [.getLocal (UInt8.ofNat (v :: L).length),
        .setLocal (UInt8.ofNat L.length), .pop]) ⟨slotsOf (w :: v :: L), none⟩ :=
    .step fetched (spares_above [] (Nat.zero_le _))
      (.step stored (spares_above [.plain] (Nat.le_refl _))
        (.instr .pop (spares_above [.plain] (Nat.le_refl _))))
  exact first.seq (inner.seq (back.seq (exits_block [w] (v :: L))))

/-- The code of a phrase takes the locals in scope before it to those in scope after it. -/
theorem Stmt.Emits.shaped {top : Bool} {s : StmtSort} {t : Stmt s}
    (h : t.Emits Γ top L items L') (proper : t.Proper) (sane : Sane Γ top L) :
    Block Γ.surroundings ⟨held s ++ slotsOf L, none⟩ items ⟨held s ++ slotsOf L', none⟩ ∧
      Sane Γ top L' := by
  induction h with
  | print inner =>
    refine ⟨framed_block ?_, sane⟩
    rw [under_append]
    exact (inner.shaped proper []).andThen .print (spares_above [_] (Nat.le_refl _))
  | expression inner =>
    refine ⟨framed_block ?_, sane⟩
    rw [under_append]
    exact (inner.shaped proper []).andThen .pop (spares_above [_] (Nat.le_refl _))
  | retNone => exact ⟨framed_block ((return_ends sane.nonempty _).block _), sane⟩
  | retSome _ _ inner =>
    refine ⟨framed_block ?_, sane⟩
    rw [under_append]
    exact (inner.shaped (proper _ rfl) []).seq
      ((Ends.ret rfl (spares_above [_] (Nat.le_refl _))).block _)
  | ifThen condition _ thenFits ih =>
    refine ⟨framed_block ?_, sane⟩
    have none := conditional_block (condition.shaped proper.1 []) (ih proper.2 sane.inner).1
      (.nil _ _) rfl rfl thenFits (by decide)
    rw [List.append_nil] at none
    exact none
  | ifElse condition _ _ thenFits elseFits ih ih' =>
    refine ⟨framed_block ?_, sane⟩
    exact conditional_block (condition.shaped proper.1 []) (ih proper.2.1 sane.inner).1
      (ih' proper.2.2 sane.inner).1 rfl rfl thenFits elseFits
  | whileLoop condition _ fits ih =>
    refine ⟨framed_block (loop_block ?_ (fun _ there => nomatch there) (ih proper.2 sane.inner).1
      fits), sane⟩
    rintro is ⟨⟩
    exact condition.shaped proper.1 []
  | forLoop clause condition advance _ fits ih =>
    obtain ⟨first, second, third, body⟩ := proper
    exact ⟨framed_block ((initializer_block clause first).seq (loop_block
      (clause_block condition second) (clause_block advance third) (ih body sane.inner).1 fits)),
      sane⟩
  | @forVar Γ top L x value start v _ _ _ _ w _ _ clause named copyNamed condition advance _ localsFit
      fits ih =>
    obtain ⟨⟨name, first⟩, second, third, body⟩ := proper
    have variable_ : v.name ≠ "super" := named ▸ name.2.2
    have entered := (value_block clause first).mono (.refl _) (slots_named .any variable_ L none)
    have turn := copy_block variable_ (copyNamed ▸ name.2.2) localsFit (ih body (.cons Γ w _)).1
    have turns := loop_block (clause_block condition second) (clause_block advance third) turn fits
    exact ⟨framed_block (entered.seq (turns.seq (exits_block [v] L))), sane⟩
  | block _ ih =>
    exact ⟨framed_block ((ih proper sane.inner).1.seq (exits_block _ _)), sane⟩
  | statement _ ih => exact ih proper sane
  | var inner binds =>
    refine ⟨framed_block ?_, sane.binds binds⟩
    rw [under_append]
    exact (value_block inner proper.2).seq
      (binds_block binds proper.1.2.2 (fun same => nomatch same))
  | function binds inside entry inner constant assembles =>
    obtain ⟨name, params, body⟩ := proper
    have kind := inside.kind
    have compiled := Compiled.function (by rw [kind]; exact fun same => nomatch same)
      (kind.symm ▸ entry) params inner body assembles
    exact ⟨framed_block (function_block assembles inside ⟨_, _, _, compiled, rfl⟩ constant binds
      name.2.2), sane.binds binds⟩
  | @cls Γ _ L _ _ index define _ _ _ constant binds leads _ ih =>
    obtain ⟨name, -, methods⟩ := proper
    obtain ⟨σ, defined, refines, reads⟩ := class_reads binds sane name
    have made : Block Γ.surroundings ⟨slotsOf L, none⟩ (under L (.makeClass index :: define)) σ :=
      .step (.makeClass (T := Γ.surroundings) constant) (spares_above [] (Nat.zero_le _)) defined
    have read := (reads [] [] _ rfl (fun _ there => nomatch there) leads).mono (.refl _)
      (refines_above refines (.refl _))
    have last := (ih methods (sane.binds binds).inner).1.seq
      (.instr .pop (spares_above [_] (Nat.le_refl _)))
    exact ⟨framed_block (made.seq (read.seq last)), sane.binds binds⟩
  | @subclass Γ _ L x y _ index define L' _ hidden _ _ _ constant binds _ superclass named leads leads'
      _ _ ih =>
    obtain ⟨name, -, methods⟩ := proper
    obtain ⟨σ, defined, refines, reads⟩ := class_reads binds sane name
    have made : Block Γ.surroundings ⟨slotsOf L, none⟩ (under L (.makeClass index :: define)) σ :=
      .step (.makeClass (T := Γ.surroundings) constant) (spares_above [] (Nat.zero_le _)) defined
    have height : σ.slots.length = L'.length := refines.height.trans (length_slotsOf L')
    have parent := superclass.read_block (g := σ.global) (Nat.le_of_eq height.symm)
    have other : ∀ v ∈ [hidden], v.name ≠ x := by
      intro v there same
      rw [List.mem_singleton.1 there, named] at same
      exact name.2.2 same.symm
    have read := reads [hidden] [.plain] _ rfl other leads
    have spares : Spares (namesOf (hidden :: L'))
        (Shape.height ⟨⟨.cls, false⟩ :: .plain :: σ.slots, σ.global⟩) .inherit := by
      refine Or.inr ⟨rfl, ?_, congrArg some named⟩
      rw [length_namesOf, Shape.height_mk, List.length_cons, List.length_cons, List.length_cons,
        height]
    have place : Slot.Refines ⟨.cls, false⟩ hidden.slot := by
      rw [Local.slot, if_pos named]
      exact ⟨.inl rfl, fun shared => nomatch shared⟩
    have forgets : Shape.Refines ⟨⟨.cls, false⟩ :: ⟨.cls, false⟩ :: σ.slots, σ.global⟩
        ⟨⟨.cls, false⟩ :: slotsOf (hidden :: L'), none⟩ :=
      ⟨.cons (.refl _) (.cons place refines.slots), fun _ known => nomatch known⟩
    have again := (reads [hidden] [⟨.cls, false⟩] _ rfl other leads').mono (.refl _) forgets
    have inherits := read.seq ((Block.instr .inherit spares).seq again)
    have body := (ih methods (.cons Γ hidden L')).1.seq
      ((Block.instr .pop (spares_above [_] (Nat.le_refl _))).seq (exits_block [hidden] L'))
    exact ⟨framed_block (made.seq (parent.seq (inherits.seq body))), sane.binds binds⟩
  | noDeclarations => exact ⟨.nil _ _, sane⟩
  | declare _ _ ih ih' =>
    obtain ⟨first, sane⟩ := ih proper.1 sane
    obtain ⟨others, sane⟩ := ih' proper.2 sane
    exact ⟨first.seq others, sane⟩
  | noMethods => exact ⟨.nil _ _, sane⟩
  | method constant inside entry inner entryConstant assembles _ _ ih =>
    obtain ⟨params, body, methods⟩ := proper
    have kind := inside.kind
    have compiled := Compiled.function (by rw [kind, methodKind]; split <;> exact fun same => nomatch same)
      (kind.symm ▸ entry) params inner body assembles
    obtain ⟨others, sane⟩ := ih methods sane
    exact ⟨(method_block assembles inside ⟨_, _, _, compiled, rfl⟩ entryConstant constant).seq others,
      sane⟩

end Lox.Syntax

namespace Lox.Compile

open Syntax

/-! ## Whole functions -/

variable {p : Prototype} {Γ : Context} {start : List Local} {items : List Item}

/-- The record of a compiled function that its theory needs. -/
lemma Compiled.assembles (h : Compiled p Γ start items) :
    ∃ name params body stop, items = body ++ under stop (returnCode Γ.kind) ∧
      Assembles p name params Γ body stop ∧ start.length = params + 1 := by
  cases h with
  | script _ _ _ _ _ assembles => exact ⟨_, _, _, _, rfl, assembles, rfl⟩
  | function _ entry _ _ _ assembles =>
    refine ⟨_, _, _, _, rfl, assembles, ?_⟩
    have names := congrArg List.length entry
    rwa [length_namesOf, List.length_append, List.length_reverse, List.length_singleton] at names

/-- A compiled function agrees with shapes that start with its parameters above slot zero. -/
theorem Compiled.ends (h : Compiled p Γ start items) :
    Ends Γ.surroundings ⟨slotsOf start, none⟩ items := by
  cases h with
  | script _ around named emits proper =>
    obtain ⟨body, sane⟩ := emits.shaped proper
      ⟨List.cons_ne_nil _ _, fun _ => ⟨around, congrArg (List.cons · []) named⟩⟩
    exact .after body (return_ends sane.nonempty _)
  | function _ entry _ emits proper =>
    have nonempty : start ≠ [] := by
      rintro rfl
      exact List.append_ne_nil_of_right_ne_nil _ (List.cons_ne_nil _ _) entry.symm
    obtain ⟨body, sane⟩ := emits.shaped proper ⟨nonempty, fun top => nomatch top⟩
    exact .after body (return_ends sane.nonempty _)

lemma Compiled.code (h : Compiled p Γ start items) : p.chunk.code.toList = bytes (instrs items) := by
  obtain ⟨_, _, _, _, rfl, assembles, -⟩ := h.assembles
  exact assembles.code

lemma Compiled.pool (h : Compiled p Γ start items) : p.chunk.constants = Γ.constants := by
  obtain ⟨_, _, _, _, -, assembles, -⟩ := h.assembles
  exact assembles.constants

lemma Compiled.arity (h : Compiled p Γ start items) : start.length = 1 + p.arity.toNat := by
  obtain ⟨_, params, _, _, -, assembles, length⟩ := h.assembles
  rw [length, assembles.arity, count_toNat assembles.paramsFit, Nat.add_comm]

/-- The functions in the pool of a compiled function are compiled functions. -/
theorem Compiled.inside (h : Compiled p Γ start items) {q : Prototype}
    (there : .prototype q ∈ p.chunk.constants) : ∃ kinds, ClosedOver q kinds := by
  obtain ⟨E, -, -, valid⟩ := h.ends.shapes
  obtain ⟨_, _, body, stop, rfl, assembles, -⟩ := h.assembles
  rw [assembles.constants] at there
  obtain ⟨index, captures, code, entry⟩ := assembles.covered q there
  obtain ⟨before, after, split⟩ := List.append_of_mem code
  have split' : instrs (body ++ under stop (returnCode Γ.kind)) = before ++
      .closure index captures :: (after ++ instrs (under stop (returnCode Γ.kind))) := by
    rw [instrs_append, split, List.append_assoc]
    rfl
  obtain ⟨σ, -, -, -, τ, exec, -⟩ := valid.instr split'
  cases exec with
  | literal kind | unary kind | binary kind => cases kind
  | closure entry' closes =>
    have same := Option.some.inj (entry.symm.trans entry')
    rw [← Constant.prototype.inj same] at closes
    exact ⟨_, closes⟩

/-- A function is another one, or a function in its pool, or in the pool of such a function. -/
inductive Contains : Prototype → Prototype → Prop where
  | self {p : Prototype} : Contains p p
  | nested {p q r : Prototype} (there : .prototype q ∈ p.chunk.constants) (further : Contains q r) : Contains p r

theorem Compiled.contains (h : Compiled p Γ start items) {q : Prototype} (inside : Contains p q) :
    ∃ Γ' start' items', Compiled q Γ' start' items' := by
  induction inside generalizing Γ start items with
  | self => exact ⟨Γ, start, items, h⟩
  | nested there _ ih =>
    obtain ⟨_, Γ', start', items', h', -⟩ := h.inside there
    exact ih h'

end Lox.Compile
