import Lox.Proofs.Compile.Lawfulness
import Lox.Proofs.Compile.StatementFusion

/-!
# What compiling statements decides

Each construct of a statement is treated with its parts as parameters: declarations, branches, loops,
functions and classes.  Compiling it complains if the construct itself breaks a rule or a part of it
does.
-/

namespace Lox.Compile

open Syntax Outline

variable {α β : Type} {Γ : Outlook} {P Q : Prop} {o : Outline} {os : List Outline} {classes : List Bool}
variable {x : String} {ls : List Literal} {bytes : Nat}

/-! ## Scopes -/

lemma Outline.Settled.pending (h : o.Settled) : o.pending = none := by
  unfold Outline.pending
  cases locals : o.locals with
  | nil => rfl
  | cons v outer =>
    obtain ⟨d, -, given⟩ := h v (by rw [locals]; exact List.mem_cons_self)
    show (if v.2.isNone then some v.1 else none) = none
    rw [given]
    rfl

lemma Outline.Settled.ready (h : o.Settled) (regular : Regular (o :: os)) : Ready o os where
  sound v there := by
    obtain ⟨d, -, given⟩ := h v (List.mem_of_mem_tail there)
    rw [given]
    rfl
  regular := regular
  plain x pending := by
    rw [h.pending] at pending
    exact nomatch pending

/-- While the initializer of a variable is read, the names in scope are those before it. -/
lemma Outline.names_push : (o.push x).names = o.names := by
  unfold Outline.names
  show (((x, none) :: o.locals).dropWhile fun v => v.2.isNone).map Prod.fst = _
  rw [List.dropWhile_cons_of_pos rfl]

lemma Outline.Settled.ready_push (h : o.Settled) (regular : Regular (o :: os)) (proper : ProperName x) :
    Ready (o.push x) os where
  sound v there := by
    obtain ⟨d, -, given⟩ := h v there
    rw [given]
    rfl
  regular := regular.head rfl
  plain _ pending := Option.some.inj pending ▸ proper

lemma Outline.Settled.declare (h : o.Settled) : (o.declare x).Settled := by
  intro v there
  unfold Outline.declare at there
  dsimp only at there
  split at there
  · exact h v there
  · rcases List.mem_cons.1 there with rfl | old
    · exact ⟨o.depth, Nat.le_refl _, rfl⟩
    · exact h v old

lemma Outline.Settled.names_declare (h : o.Settled) :
    (o.declare x).names = declared o.top x o.names := by
  rw [h.declare.names, h.names]
  unfold Outline.declare declared Outline.top
  by_cases top : o.depth = 0
  · rw [if_pos top, decide_eq_true top]
    rfl
  · rw [if_neg top, decide_eq_false top]
    rfl

lemma Outline.Settled.length (h : o.Settled) : o.names.length = o.locals.length := by
  rw [h.names, List.length_map]

/-- The same names have been declared. -/
def SameHere (here here' : Option (List String)) : Prop :=
  here.isSome = here'.isSome ∧ ∀ x, Fresh here x ↔ Fresh here' x

lemma SameHere.refl (here : Option (List String)) : SameHere here here := ⟨rfl, fun _ => Iff.rfl⟩

lemma fresh_map {here : Option (List String)} {y : String} :
    Fresh (here.map (x :: ·)) y ↔ (here.isSome → y ≠ x) ∧ Fresh here y := by
  cases here with
  | none => exact ⟨fun fresh => ⟨nofun, fun _ no => (nomatch no)⟩, fun _ _ no => (nomatch no)⟩
  | some names =>
    show (∀ names' ∈ some (x :: names), y ∉ names') ↔ _ ∧ ∀ names' ∈ some names, y ∉ names'
    simp only [Option.mem_def, Option.some.injEq, forall_eq', List.mem_cons, not_or, Option.isSome_some,
      forall_const]

lemma SameHere.map {here here' : Option (List String)} (h : SameHere here here') :
    SameHere (here.map (x :: ·)) (here'.map (x :: ·)) := by
  refine ⟨by rw [Option.isSome_map, Option.isSome_map, h.1], fun y => ?_⟩
  rw [fresh_map, fresh_map, h.1, h.2]

lemma SameHere.declares {s : StmtSort} (t : Stmt s) :
    ∀ {here here' : Option (List String)}, SameHere here here' →
      SameHere (t.declares here) (t.declares here') := by
  induction t with
  | var x value => exact fun h => h.map
  | function x params body => exact fun h => h.map
  | cls x superclass ms => exact fun h => h.map
  | declare d ds ihd ihds => exact fun h => ihds (ihd h)
  | _ => exact fun h => h

lemma Outline.here_declare : (o.declare x).here = o.here.map (x :: ·) := by
  unfold Outline.here Outline.declare
  by_cases top : o.depth = 0
  · rw [if_pos top, if_pos top]
    rfl
  · dsimp only
    rw [if_neg top, if_neg top, if_neg top]
    have mine : (some o.depth).all (o.depth ≤ ·) = true := decide_eq_true (Nat.le_refl _)
    rw [List.takeWhile_cons_of_pos (a := (x, some o.depth)) mine]
    rfl

/-! ## Declarations -/

lemma Outline.Of.isDeclaredHere {b : Body} (h : o.Of b) (inner : o.depth ≠ 0) :
    b.isDeclaredHere x = true ↔ ¬Fresh o.here x := by
  unfold Body.isDeclaredHere Outline.here Fresh
  rw [if_neg inner, ← h.locals, h.depth, List.takeWhile_map, List.map_map]
  simp only [Option.mem_def, Option.some.injEq, forall_eq', not_not]
  rw [List.any_eq_true, List.mem_map]
  exact exists_congr fun v => and_congr Iff.rfl beq_iff_eq

/-- A name is declared in an inner scope. -/
lemma decides_declareName (inner : o.depth ≠ 0) (place : o.locals.length < maxOperands) :
    Decides ⟨o :: os, classes⟩ (declareName x) (Fresh o.here x) fun _ => ⟨o.push x :: os, classes⟩ := by
  by_cases fresh : Fresh o.here x
  · have known : Decides ⟨o :: os, classes⟩ (declareName x) True _ :=
      .get (fun s holds => by
        rw [if_neg (holds.first.depth ▸ inner),
          if_neg fun there => (holds.first.isDeclaredHere inner).1 there fresh]) (decides_addLocal place)
    exact known.congr (iff_of_true trivial fresh)
  · have known : Decides ⟨o :: os, classes⟩ (declareName x) (False ∧ True) _ :=
      .get (fun s holds => by
        rw [if_neg (holds.first.depth ▸ inner),
          if_pos ((holds.first.isDeclaredHere inner).2 fresh)])
        ((Decides.complain .redeclared fun _ => ⟨o :: os, classes⟩).bind fun _ => decides_addLocal place)
    exact known.congr (iff_of_false And.left fresh)

lemma decides_declareName_top (top : o.depth = 0) :
    Decides ⟨o :: os, classes⟩ (declareName x) True fun _ => ⟨o :: os, classes⟩ :=
  .get (fun _ holds => if_pos (holds.first.depth.trans top)) (Decides.pure PUnit.unit)

lemma decides_bindName (inner : o.depth ≠ 0) (place : o.locals.length < maxOperands) :
    Decides ⟨o :: os, classes⟩ (bindName x) (Fresh o.here x) fun _ => ⟨o.push x :: os, classes⟩ :=
  decides_advance.after fun _ => (decides_declareName inner place).before fun _ =>
    .get (fun _ holds => if_neg (holds.first.depth ▸ inner)) (Decides.pure (0 : UInt8))

lemma decides_bindName_top (top : o.depth = 0) (room : Room (o.constants ++ [.string x])) :
    Decides ⟨o :: os, classes⟩ (bindName x) True fun _ => ⟨o.ask [.string x] :: os, classes⟩ :=
  decides_advance.after fun _ => (decides_declareName_top top).after fun _ =>
    .get (fun _ holds => if_pos (holds.first.depth.trans top)) (decides_stringConstant room)

/-! ## Variables -/

lemma clauseLawful_none {pending : Option String} : ClauseLawful pending classes none ↔ True :=
  iff_true_intro fun _ no => (nomatch no)

lemma clauseLawful_some {pending : Option String} {e : Expr .expression} :
    ClauseLawful pending classes (some e) ↔ e.Lawful pending classes :=
  ⟨fun h => h e rfl, fun h _ there => Option.some.inj there ▸ h⟩

lemma decides_expression {e : Expr .expression} {n : Nat} (ready : Ready o os) (fits : e.Fits)
    (deep : e.depth + 1 ≤ n) (room : Room (o.constants ++ e.constants (env (o :: os))))
    (allowed : o.Allows (e.mentions (env (o :: os)))) :
    Decides ⟨o :: os, classes⟩ (e.expression n) (e.Lawful o.pending classes)
      fun _ => ⟨o.spend (e.constants (env (o :: os))) e.size :: os, classes⟩ :=
  decides_within deep fun m deep => e.decides m 0 ready fits deep e.single room allowed

/-- The initial value of a variable. -/
lemma decides_value {value : Option (Expr .expression)} {n : Nat} (ready : Ready o os)
    (fits : ClauseFits value) (deep : clauseDepth value ≤ n)
    (room : Room (o.constants ++ clauseConstants (env (o :: os)) value))
    (allowed : o.Allows (clauseMentions (env (o :: os)) value)) :
    Decides ⟨o :: os, classes⟩
      (value.elim (emit .pushNil) fun e => do advance; e.expression n)
      (ClauseLawful o.pending classes value)
      fun _ => ⟨o.spend (clauseConstants (env (o :: os)) value) (clauseSize 0 1 value) :: os, classes⟩ := by
  cases value with
  | none =>
    refine ((decides_emitSized .pushNil 1 rfl).congr clauseLawful_none.symm).spending
      fun _ => ⟨rfl, rfl, rfl, List.append_nil _, rfl, Nat.le_refl _, List.Subset.refl _⟩
  | some e =>
    exact (decides_advance.after fun _ => decides_expression ready (fits e rfl) deep room allowed).congr
      clauseLawful_some.symm

lemma buildBinding_eq (x : String) (value : Option (Expr .expression)) (n : Nat) :
    buildBinding x value n = (do
      let constant ← bindName x
      value.elim (emit .pushNil) fun e => do advance; e.expression n
      advance
      defineVariable constant) := by
  cases value <;> rfl

lemma fresh_none : Fresh none x := fun _ no => (nomatch no)

lemma decides_buildBinding {value : Option (Expr .expression)} {n : Nat} (settled : o.Settled)
    (regular : Regular (o :: os)) (proper : ProperName x) (fits : ClauseFits value)
    (place : HasPlace o.top o.names) (deep : clauseDepth value ≤ n)
    (room : Room (o.constants ++
      (declaredConstants o.top x ++ clauseConstants (env (o :: os)) value)))
    (allowed : o.Allows (clauseMentions (env (o :: os)) value)) :
    Decides ⟨o :: os, classes⟩ (buildBinding x value n)
      (Fresh o.here x ∧ ClauseLawful (if o.here.isSome then some x else none) classes value)
      fun _ => ⟨(o.declare x).spend (declaredConstants o.top x ++ clauseConstants (env (o :: os)) value)
        (clauseSize 0 1 value + definedSize o.top) :: os, classes⟩ := by
  rw [buildBinding_eq]
  by_cases top : o.depth = 0
  · have global : o.top = true := decide_eq_true top
    have nowhere : o.here = none := if_pos top
    rw [global] at room ⊢
    rw [nowhere]
    obtain ⟨here, later⟩ := room.split
    have given : Decides ⟨o.ask [.string x] :: os, classes⟩ _ (ClauseLawful _ _ _) _ :=
      decides_value (settled.ready regular).ask fits deep later allowed
    have all : Decides ⟨o :: os, classes⟩ _ _ _ :=
      (decides_bindName_top top here).after fun constant => given.before fun _ =>
        decides_advance.after fun _ => decides_defineVariable_top constant top
    refine ((all.congr ?_).loosen fun _ => ⟨rfl, rfl, ?_, ?_, rfl, ?_, List.Subset.refl _⟩)
    · show ClauseLawful o.pending classes value ↔ _
      rw [settled.pending]
      exact ⟨fun lawful => ⟨fresh_none, lawful⟩, And.right⟩
    · show (if o.depth = 0 then o.locals else _) = o.locals
      rw [if_pos top]
    · exact (List.append_assoc _ _ _).symm
    · rw [size_grow, size_spend, size_ask, size_spend]
      exact Nat.le_of_eq (Nat.add_assoc _ _ _)
  · have inner : o.top = false := decide_eq_false top
    have known : o.here.isSome = true := by
      unfold Outline.here
      rw [if_neg top]
      rfl
    rw [inner] at room place ⊢
    rw [known]
    have free : o.locals.length < maxOperands := by
      rcases place with no | place
      · exact nomatch no
      · exact settled.length ▸ place
    have same : env (o.push x :: os) = env (o :: os) := by
      unfold env
      rw [List.map_cons, List.map_cons, names_push]
    have given : Decides ⟨o.push x :: os, classes⟩ _ (ClauseLawful _ _ _) _ :=
      decides_value (settled.ready_push regular proper) fits deep (by rw [same]; exact room)
        (by rw [same]; exact allowed)
    rw [same] at given
    have all : Decides ⟨o :: os, classes⟩ _ _ _ :=
      (decides_bindName top free).bind fun constant => given.before fun _ =>
        decides_advance.after fun _ => decides_defineVariable constant
          (show _ = (x, none) :: o.locals from rfl) top
    refine all.loosen fun _ => ⟨rfl, rfl, ?_, rfl, rfl, Nat.le_refl _, List.Subset.refl _⟩
    show (if o.depth = 0 then o.locals else _) = _
    rw [if_neg top]
    rfl

/-! ## Functions -/

/-- The parameters of a function are variables of one scope. -/
lemma decides_buildParameters (params : List String) :
    ∀ (count : Nat) {o : Outline}, o.depth ≠ 0 → count + params.length ≤ maxArity + 1 →
      o.locals.length + params.length ≤ maxOperands →
      Decides ⟨o :: os, classes⟩ (buildParameters params count)
        (params.Nodup ∧ ∀ x ∈ params, Fresh o.here x) fun _ =>
        ⟨{ o with locals := params.reverse.map (·, some o.depth) ++ o.locals } :: os, classes⟩ := by
  induction params with
  | nil =>
    intro count o inner few places
    exact (Decides.pure ()).congr
      (iff_of_true trivial ⟨List.nodup_nil, fun _ there => absurd there List.not_mem_nil⟩)
  | cons x params ih =>
    intro count o inner few places
    rw [List.length_cons] at few places
    have declared : (o.declare x).locals = (x, some o.depth) :: o.locals := if_neg inner
    have known : o.here.isSome = true := by
      unfold Outline.here
      rw [if_neg inner]
      rfl
    have others := ih (count + 1) (o := o.declare x) inner (by omega)
      (by rw [declared, List.length_cons]; omega)
    have rest : Decides ⟨o.declare x :: os, classes⟩
        (if params.isEmpty = true then pure () else do advance; buildParameters params (count + 1))
        (params.Nodup ∧ ∀ y ∈ params, Fresh (o.declare x).here y) fun _ =>
          ⟨{ o.declare x with
            locals := params.reverse.map (·, some o.depth) ++ (o.declare x).locals } :: os, classes⟩ := by
      cases params with
      | nil => exact others
      | cons y params => exact decides_advance.after fun _ => others
    have first : Decides ⟨o :: os, classes⟩ (checkParameter count) True fun _ => ⟨o :: os, classes⟩ := by
      unfold checkParameter
      rw [if_neg (by omega)]
      exact Decides.pure ()
    have arity : Decides ⟨o :: os, classes⟩
        (modifyBody fun b => { b with arity := min count maxArity }) True fun _ => ⟨o :: os, classes⟩ :=
      decides_modifyBody rfl (fun _ fits => ⟨fits.kind, fits.depth, fits.locals, fits.constants, fits.few,
        fits.marks⟩) (fun _ => rfl) fun _ => rfl
    have defined : ∀ constant : UInt8, Decides ⟨o.push x :: os, classes⟩ (defineVariable constant) True
        fun _ => ⟨o.declare x :: os, classes⟩ := fun constant => by
      refine (decides_defineVariable (o := o.push x) constant rfl inner).loosen fun _ =>
        ⟨rfl, rfl, declared, rfl, rfl, Nat.le_refl _, List.Subset.refl _⟩
    have all : Decides ⟨o :: os, classes⟩ (buildParameters (x :: params) count) _ _ :=
      first.after fun _ => arity.after fun _ => (decides_bindName inner (by omega)).bind fun constant =>
        (defined constant).after fun _ => rest
    refine (all.congr ?_).loosen fun _ => ⟨rfl, rfl, ?_, rfl, rfl, Nat.le_refl _, List.Subset.refl _⟩
    · rw [here_declare, List.nodup_cons, List.forall_mem_cons]
      simp only [fresh_map, known, forall_const]
      constructor
      · rintro ⟨fresh, nodup, apart⟩
        exact ⟨⟨fun there => (apart x there).1 rfl, nodup⟩, fresh, fun y there => (apart y there).2⟩
      · rintro ⟨⟨new, nodup⟩, fresh, apart⟩
        refine ⟨fresh, nodup, fun y there => ⟨?_, apart y there⟩⟩
        rintro rfl
        exact new there
    · rw [declared]
      show ((x :: params).reverse.map _) ++ o.locals = params.reverse.map _ ++ (_ :: o.locals)
      rw [List.reverse_cons, List.map_append, List.append_assoc]
      rfl

/-- A function of which the parameters have been read. -/
def Outline.function (kind : BodyKind) (params : List String) (captured : List Variable) : Outline where
  kind := kind
  depth := 1
  locals := params.reverse.map (·, some 1) ++ [(kind.slotZero, some 0)]
  constants := []
  captured := captured
  size := 0
  marks := []

section Functions

variable {kind : BodyKind} {params : List String} {captures : List Variable}

lemma Outline.function_settled : (Outline.function kind params captures).Settled := by
  intro v there
  rcases List.mem_append.1 there with there | there
  · obtain ⟨x, -, rfl⟩ := List.mem_map.1 there
    exact ⟨1, Nat.le_refl _, rfl⟩
  · obtain rfl := List.mem_singleton.1 there
    exact ⟨0, Nat.zero_le _, rfl⟩

lemma Outline.function_names :
    (Outline.function kind params captures).names = params.reverse ++ [kind.slotZero] := by
  rw [Outline.function_settled.names]
  unfold Outline.function
  rw [List.map_append, List.map_map]
  congr 1
  exact List.map_id' _

lemma Outline.function_here : SameHere (some params) (Outline.function kind params captures).here := by
  have here : (Outline.function kind params captures).here = some params.reverse := by
    show some (((params.reverse.map (·, some 1) ++ [(kind.slotZero, some 0)]).takeWhile
      fun v : String × Option Nat => v.2.all (1 ≤ ·)).map Prod.fst) = _
    rw [List.takeWhile_append_of_pos]
    · show some ((params.reverse.map (·, some 1) ++ []).map Prod.fst) = _
      rw [List.append_nil, List.map_map]
      congr 1
      exact List.map_id' _
    · intro v there
      obtain ⟨x, -, rfl⟩ := List.mem_map.1 there
      rfl
  rw [here]
  refine ⟨rfl, fun x => ?_⟩
  unfold Fresh
  simp only [Option.mem_def, Option.some.injEq, forall_eq', List.mem_reverse]

/-- A function around which much is known is one of which much is known. -/
lemma Regular.function (regular : Regular (o :: os)) (settled : o.Settled)
    (few : captures.dedup.length ≤ maxOperands) (nested : o.Allows captures) :
    Regular (Outline.function kind params captures :: o :: os) where
  settled := List.forall_mem_cons.2 ⟨settled, regular.settled⟩
  few := List.forall_mem_cons.2 ⟨few, regular.few⟩
  nested := ⟨nested, regular.nested⟩

lemma decides_buildFunction {body : Compiling Unit} {f : Outline} (arity : params.length ≤ maxArity)
    (room : Room (o.constants ++ [.function]))
    (inside : Decides ⟨Outline.function kind params captures :: o :: os, classes⟩ body P
      fun _ => ⟨f :: o :: os, classes⟩) (captured : f.captured = captures) :
    Decides ⟨o :: os, classes⟩ (buildFunction kind x params body) (params.Nodup ∧ P)
      fun _ => ⟨o.spend [.function] (2 + 2 * captures.dedup.length) :: os, classes⟩ := by
  have begun : (Outline.opened kind captures).enter.here = some [] := rfl
  have read : Decides ⟨(Outline.opened kind captures).enter :: o :: os, classes⟩
      (buildParameters params 1) (params.Nodup)
      fun _ => ⟨Outline.function kind params captures :: o :: os, classes⟩ := by
    refine (decides_buildParameters params 1 (Nat.succ_ne_zero 0) (by omega) ?_).congr ?_
    · show 1 + params.length ≤ 256
      unfold maxArity at arity
      omega
    · rw [begun]
      refine ⟨And.left, fun nodup => ⟨nodup, fun _ _ names here => ?_⟩⟩
      obtain rfl := Option.some.inj here
      exact List.not_mem_nil
  have closes : Decides ⟨f :: o :: os, classes⟩ _ True _ := decides_closeFunction room
  rw [captured] at closes
  exact (decides_openBody captures).after fun _ => decides_beginScope.after fun _ =>
    decides_advance.after fun _ => read.bind fun _ => decides_advance.after fun _ =>
      decides_advance.after fun _ => inside.before fun _ => closes

end Functions

/-! ## Branches -/

/-- A mark at a bound that is computed in another way. -/
lemma mark_subset {place bound bound' : Nat} {ms ms' : List (Nat × Nat)} (same : bound = bound')
    (others : ms ⊆ ms') : (place, bound) :: ms ⊆ (place, bound') :: ms' := by
  rw [same]
  exact List.cons_subset_cons _ others

/-- One branch is taken where the condition holds, and the code after it jumps over the other one. -/
lemma decides_branch {yes : Compiling Unit} {rest : JumpSite → Compiling Unit} {Γ' : Unit → Outlook}
    (near : bytes + 4 ≤ maxDistance)
    (first : ∀ otherwise : JumpSite,
      Decides ⟨((o.grow 3).mark otherwise.start).grow 1 :: os, classes⟩ yes P
        fun _ => ⟨(((o.grow 3).mark otherwise.start).grow 1).spend ls bytes :: os, classes⟩)
    (second : ∀ stop : JumpSite,
      Decides ⟨((o.spend ls (bytes + 7)).mark stop.start).grow 1 :: os, classes⟩ (rest stop) Q Γ') :
    Decides ⟨o :: os, classes⟩ (do
      let otherwise ← emitJump .jumpIfFalse
      emit .pop
      yes
      let stop ← emitJump .jump
      land otherwise
      emit .pop
      rest stop) (P ∧ Q) Γ' := by
  refine (decides_emitJump .jumpIfFalse fun _ => rfl).after fun otherwise =>
    (decides_emitSized .pop 1 rfl).after fun _ => (first otherwise).bind fun _ =>
      (decides_emitJump .jump fun _ => rfl).after fun stop => ?_
  have lands : Decides ⟨((((((o.grow 3).mark otherwise.start).grow 1).spend ls bytes).grow 3).mark
      stop.start) :: os, classes⟩ (land otherwise) True
      fun _ => ⟨(o.spend ls (bytes + 7)).mark stop.start :: os, classes⟩ := by
    refine (decides_land otherwise (List.mem_cons_of_mem _ List.mem_cons_self) ?_).loosen
      fun _ => ⟨rfl, rfl, rfl, rfl, rfl, ?_, mark_subset ?_ (List.subset_cons_self _ _)⟩
    · rw [size_mark, size_grow, size_spend, size_grow, size_mark]
      omega
    · rw [size_mark, size_mark, size_grow, size_spend, size_grow, size_mark, size_grow, size_spend]
      omega
    · show o.size + (bytes + 7) = o.size + 3 + 1 + bytes + 3
      omega
  exact lands.after fun _ => (decides_emitSized .pop 1 rfl).after fun _ => second stop

/-- A conditional without another branch. -/
lemma decides_if {yes : Compiling Unit} (near : bytes + 4 ≤ maxDistance)
    (first : ∀ otherwise : JumpSite,
      Decides ⟨((o.grow 3).mark otherwise.start).grow 1 :: os, classes⟩ yes P
        fun _ => ⟨(((o.grow 3).mark otherwise.start).grow 1).spend ls bytes :: os, classes⟩) :
    Decides ⟨o :: os, classes⟩ (do
      let otherwise ← emitJump .jumpIfFalse
      emit .pop
      yes
      let stop ← emitJump .jump
      land otherwise
      emit .pop
      land stop) P fun _ => ⟨o.spend ls (bytes + 8) :: os, classes⟩ := by
  refine (decides_branch near first fun stop => ?_).congr (and_iff_left trivial)
  refine (decides_land stop List.mem_cons_self ?_).spending
    fun _ => ⟨rfl, rfl, rfl, rfl, rfl, Nat.le_refl _, List.subset_cons_self _ _⟩
  rw [size_grow, size_mark]
  exact Nat.add_le_add_left (Nat.le_of_ble_eq_true rfl) _

/-- A conditional with two branches. -/
lemma decides_ifElse {yes no : Compiling Unit} {ls' : List Literal} {bytes' : Nat}
    (near : bytes + 4 ≤ maxDistance) (near' : bytes' + 1 ≤ maxDistance)
    (first : ∀ otherwise : JumpSite,
      Decides ⟨((o.grow 3).mark otherwise.start).grow 1 :: os, classes⟩ yes P
        fun _ => ⟨(((o.grow 3).mark otherwise.start).grow 1).spend ls bytes :: os, classes⟩)
    (second : ∀ stop : JumpSite,
      Decides ⟨((o.spend ls (bytes + 7)).mark stop.start).grow 1 :: os, classes⟩ no Q
        fun _ => ⟨(((o.spend ls (bytes + 7)).mark stop.start).grow 1).spend ls' bytes' :: os, classes⟩) :
    Decides ⟨o :: os, classes⟩ (do
      let otherwise ← emitJump .jumpIfFalse
      emit .pop
      yes
      let stop ← emitJump .jump
      land otherwise
      emit .pop
      advance
      no
      land stop) (P ∧ Q) fun _ => ⟨o.spend (ls ++ ls') (bytes + bytes' + 8) :: os, classes⟩ := by
  refine decides_branch near first fun stop => ?_
  have lands : Decides ⟨(((o.spend ls (bytes + 7)).mark stop.start).grow 1).spend ls' bytes' :: os,
      classes⟩ (land stop) True _ :=
    decides_land stop List.mem_cons_self (by
      rw [size_spend, size_grow, size_mark]
      omega)
  have all : Decides ⟨((o.spend ls (bytes + 7)).mark stop.start).grow 1 :: os, classes⟩
      (do advance; no; land stop) Q _ := decides_advance.after fun _ => (second stop).before fun _ => lands
  refine all.spending fun _ => ⟨rfl, rfl, rfl, (List.append_assoc _ _ _).symm, rfl, ?_,
    List.subset_cons_self _ _⟩
  rw [size_spend, size_grow, size_mark, size_spend, size_spend]
  omega

/-! ## Loops -/

/-- The turns of a loop with a condition. -/
lemma decides_turns {act : Compiling Unit} {start bound : Nat} (marked : (start, bound) ∈ o.marks)
    (back : o.size + bytes + 7 ≤ bound + maxDistance) (near : bytes + 4 ≤ maxDistance)
    (body : ∀ exit : JumpSite, Decides ⟨((o.grow 3).mark exit.start).grow 1 :: os, classes⟩ act P
      fun _ => ⟨(((o.grow 3).mark exit.start).grow 1).spend ls bytes :: os, classes⟩) :
    Decides ⟨o :: os, classes⟩ (do
      let exit ← emitJump .jumpIfFalse
      emit .pop
      act
      emitLoop start
      land exit
      emit .pop) P fun _ => ⟨o.spend ls (bytes + 8) :: os, classes⟩ := by
  refine (decides_emitJump .jumpIfFalse fun _ => rfl).after fun exit => ?_
  have loops : Decides ⟨(((o.grow 3).mark exit.start).grow 1).spend ls bytes :: os, classes⟩
      (emitLoop start) True _ :=
    decides_emitLoop (List.mem_cons_of_mem _ marked) (by
      rw [size_spend, size_grow, size_mark, size_grow]
      omega)
  have lands : Decides ⟨((((o.grow 3).mark exit.start).grow 1).spend ls bytes).grow 3 :: os, classes⟩
      (land exit) True _ :=
    decides_land exit List.mem_cons_self (by
      rw [size_grow, size_spend, size_grow, size_mark]
      omega)
  have all : Decides ⟨(o.grow 3).mark exit.start :: os, classes⟩
      (do emit .pop; act; emitLoop start; land exit; emit .pop) P _ :=
    (decides_emitSized .pop 1 rfl).after fun _ => (body exit).before fun _ => loops.after fun _ =>
      lands.after fun _ => decides_emitSized .pop 1 rfl
  refine all.spending fun _ => ⟨rfl, rfl, rfl, rfl, rfl, ?_, List.subset_cons_self _ _⟩
  rw [size_grow, size_grow, size_spend, size_grow, size_mark, size_grow, size_spend]
  omega

/-- Perhaps a jump out of the loop is waiting. -/
def Outline.leaving (o : Outline) (exit : Option JumpSite) (bound : Nat) : Outline :=
  { o with marks := (exit.toList.map fun site => (site.start, bound)) ++ o.marks }

/-- Where the loop goes back to is marked. -/
def Outline.returning (o : Outline) (back bound : Nat) : Outline :=
  { o with marks := (back, bound) :: o.marks }

section Clauses

variable {n : Nat} {clause : Option (Expr .expression)} {Γ' : Unit → Outlook}

lemma decides_condition {rest : Option JumpSite → Compiling Unit} (ready : Ready o os)
    (fits : ClauseFits clause) (deep : clauseDepth clause ≤ n)
    (room : Room (o.constants ++ clauseConstants (env (o :: os)) clause))
    (allowed : o.Allows (clauseMentions (env (o :: os)) clause))
    (second : ∀ exit : Option JumpSite, exit.isSome = clause.isSome →
      Decides ⟨(o.spend (clauseConstants (env (o :: os)) clause) (clauseSize 4 0 clause)).leaving exit
        (o.size + clauseSize 3 0 clause) :: os, classes⟩ (rest exit) Q Γ') :
    Decides ⟨o :: os, classes⟩ (buildCondition n clause >>= rest)
      (ClauseLawful o.pending classes clause ∧ Q) Γ' := by
  cases clause with
  | none =>
    show Decides _ (advance >>= fun _ => rest none) _ _
    have rest := second none rfl
    unfold Outline.leaving at rest
    have nothing : o.spend [] 0 = o := by
      unfold Outline.spend Outline.ask Outline.grow
      rw [List.append_nil]
      rfl
    refine (decides_advance.after fun _ => ?_).congr (and_iff_right (clauseLawful_none.2 trivial)).symm
    exact nothing ▸ rest
  | some e =>
    show Decides _ (e.expression n >>= fun _ => advance >>= fun _ => emitJump .jumpIfFalse >>=
      fun exit => emit .pop >>= fun _ => rest (some exit)) _ _
    rw [clauseLawful_some]
    refine (decides_expression ready (fits e rfl) deep room allowed).bind fun _ =>
      decides_advance.after fun _ => (decides_emitJump .jumpIfFalse fun _ => rfl).after fun exit => ?_
    have popped : Decides ⟨((o.spend (e.constants (env (o :: os))) e.size).grow 3).mark exit.start
        :: os, classes⟩ (emit .pop) True
        fun _ => ⟨(o.spend (clauseConstants (env (o :: os)) (some e)) (clauseSize 4 0 (some e))).leaving
          (some exit) (o.size + clauseSize 3 0 (some e)) :: os, classes⟩ :=
      (decides_emitSized .pop 1 rfl).loosen fun _ =>
        ⟨rfl, rfl, rfl, rfl, rfl, Nat.le_refl _, List.Subset.refl _⟩
    exact popped.after fun _ => second (some exit) rfl

lemma decides_increment {rest : Nat → Compiling Unit} {start bound : Nat} (ready : Ready o os)
    (fits : ClauseFits clause) (deep : clauseDepth clause ≤ n)
    (room : Room (o.constants ++ clauseConstants (env (o :: os)) clause))
    (allowed : o.Allows (clauseMentions (env (o :: os)) clause))
    (marked : (start, bound) ∈ o.marks)
    (near : clause.isSome → o.size + clauseSize 7 0 clause ≤ bound + maxDistance)
    (enough : bound ≤ o.size)
    (second : ∀ back : Nat,
      Decides ⟨(o.spend (clauseConstants (env (o :: os)) clause) (clauseSize 7 0 clause)).returning back
        (clause.elim bound fun _ => o.size + 3) :: os, classes⟩ (rest back) Q Γ') :
    Decides ⟨o :: os, classes⟩ (buildIncrement n start clause >>= rest)
      (ClauseLawful o.pending classes clause ∧ Q) Γ' := by
  cases clause with
  | none =>
    show Decides _ (advance >>= fun _ => rest start) _ _
    refine (decides_advance.after fun _ => ?_).congr (and_iff_right (clauseLawful_none.2 trivial)).symm
    have known : Decides ⟨o :: os, classes⟩ (pure ()) True
        fun _ => ⟨(o.spend [] 0).returning start bound :: os, classes⟩ :=
      (Decides.pure ()).loosen fun _ => ⟨rfl, rfl, rfl, List.append_nil _, rfl, Nat.le_refl _,
        List.cons_subset.2 ⟨marked, List.Subset.refl _⟩⟩
    exact known.after fun _ => second start
  | some e =>
    rw [clauseLawful_some]
    show Decides _ (emitJump .jump >>= fun enter => get >>= fun s => e.expression n >>= fun _ =>
      emit .pop >>= fun _ => advance >>= fun _ => emitLoop start >>= fun _ => land enter >>= fun _ =>
        rest s.body.size) _ _
    have near := near rfl
    dsimp only [clauseSize, Option.elim] at near
    refine (decides_emitJump .jump fun _ => rfl).after fun enter =>
      Decides.place (fun back => e.expression n >>= fun _ => emit .pop >>= fun _ => advance >>= fun _ =>
        emitLoop start >>= fun _ => land enter >>= fun _ => rest back) (fun _ => rfl) fun back => ?_
    have value : Decides ⟨((o.grow 3).mark enter.start).mark back :: os, classes⟩ (e.expression n)
        (e.Lawful o.pending classes)
        fun _ => ⟨(((o.grow 3).mark enter.start).mark back).spend (e.constants (env (o :: os))) e.size
          :: os, classes⟩ := decides_expression ready.grow.mark.mark (fits e rfl) deep room allowed
    have loops : Decides ⟨((((o.grow 3).mark enter.start).mark back).spend (e.constants (env (o :: os)))
        e.size).grow 1 :: os, classes⟩ (emitLoop start) True _ :=
      decides_emitLoop (List.mem_cons_of_mem _ (List.mem_cons_of_mem _ marked)) (by
        rw [size_grow, size_spend, size_mark, size_mark, size_grow]
        omega)
    have lands : Decides ⟨(((((o.grow 3).mark enter.start).mark back).spend
        (e.constants (env (o :: os))) e.size).grow 1).grow 3 :: os, classes⟩ (land enter) True
        fun _ => ⟨(o.spend (e.constants (env (o :: os))) (e.size + 7)).returning back (o.size + 3)
          :: os, classes⟩ := by
      refine (decides_land enter (List.mem_cons_of_mem _ List.mem_cons_self) ?_).loosen
        fun _ => ⟨rfl, rfl, rfl, rfl, rfl, ?_,
          List.cons_subset_cons _ (List.subset_cons_self _ _)⟩
      · rw [size_grow, size_grow, size_spend, size_mark, size_mark]
        omega
      · show _ ≤ o.size + (e.size + 7)
        rw [size_grow, size_grow, size_spend, size_mark, size_mark, size_grow]
        omega
    exact value.bind fun _ => (decides_emitSized .pop 1 rfl).after fun _ => decides_advance.after fun _ =>
      loops.after fun _ => lands.after fun _ => second back

lemma decides_forExit {exit : Option JumpSite} {bound : Nat}
    (marked : ∀ site ∈ exit, (site.start, bound) ∈ o.marks)
    (near : exit.isSome → o.size ≤ bound + maxDistance) :
    Decides ⟨o :: os, classes⟩ (forExit exit) True
      fun _ => ⟨o.grow (if exit.isSome then 1 else 0) :: os, classes⟩ := by
  cases exit with
  | none => exact Decides.pure ()
  | some site =>
    exact (decides_land site (marked site rfl) (near rfl)).after fun _ => decides_emitSized .pop 1 rfl

end Clauses

/-- The loop variable, if there is one, is declared. -/
def Outline.begins (o : Outline) (first : Initializer) : Outline :=
  { o with
    locals := match first with
      | .var x _ => (x, some o.depth) :: o.locals
      | _ => o.locals }

/-- In each turn the loop variable has a copy in a scope of its own. -/
def Outline.turns (o : Outline) (first : Initializer) : Outline :=
  { o with
    depth := match first with
      | .var .. => o.depth + 1
      | _ => o.depth
    size := match first with
      | .var .. => o.size + 2
      | _ => o.size
    locals := match first with
      | .var x _ => (x, some (o.depth + 1)) :: o.locals
      | _ => o.locals }

end Lox.Compile

namespace Lox.Syntax

/-- The loop variable with its slot. -/
def Initializer.ownSlot? (slot : Nat) : Initializer → Option (String × Nat)
  | .var x _ => some (x, slot)
  | _ => Option.none

end Lox.Syntax

namespace Lox.Compile

open Syntax Outline

variable {α β : Type} {Γ : Outlook} {P Q : Prop} {o : Outline} {os : List Outline} {classes : List Bool}
variable {x : String} {ls : List Literal} {bytes : Nat}

section Loops

variable {first : Initializer} {n : Nat} {Γ' : Unit → Outlook}

lemma Outline.Settled.enter (h : o.Settled) : o.enter.Settled := fun v there => by
  obtain ⟨d, le, given⟩ := h v there
  exact ⟨d, Nat.le_succ_of_le le, given⟩

lemma Outline.Settled.begins (h : o.Settled) : (o.begins first).Settled := by
  cases first with
  | var x value => exact List.forall_mem_cons.2 ⟨⟨o.depth, Nat.le_refl _, rfl⟩, h⟩
  | _ => exact h

lemma Outline.Settled.turns (h : o.Settled) : (o.turns first).Settled := by
  cases first with
  | var x value => exact List.forall_mem_cons.2 ⟨⟨o.depth + 1, Nat.le_refl _, rfl⟩, h.enter⟩
  | _ => exact h

lemma Outline.Settled.names_begins (h : o.Settled) : (o.begins first).names = first.after o.names := by
  rw [h.begins.names, h.names]
  cases first <;> rfl

lemma Outline.Settled.names_turns (h : o.Settled) :
    ((o.begins first).turns first).names = first.turn o.names := by
  rw [h.begins.turns.names, h.names]
  cases first <;> rfl

/-- In a scope that was just entered nothing has been declared. -/
lemma Outline.Settled.here_enter (h : o.Settled) : o.enter.here = some [] := by
  show some ((o.locals.takeWhile fun v => v.2.all (o.depth + 1 ≤ ·)).map Prod.fst) = _
  cases locals : o.locals with
  | nil => rfl
  | cons v outer =>
    obtain ⟨d, le, given⟩ := h v (by rw [locals]; exact List.mem_cons_self)
    have old : ¬v.2.all (o.depth + 1 ≤ ·) = true := by
      rw [given]
      exact fun no => absurd (of_decide_eq_true no) (Nat.not_succ_le_self _ ∘ (Nat.le_trans · le))
    rw [List.takeWhile_cons_of_neg (a := v) (by exact old)]
    rfl

/-- The last variable is looked up. -/
lemma decides_loopVariable {rest : Option (String × Nat) → Compiling Unit} {d : Option Nat}
    {outer : List (String × Option Nat)} (locals : o.locals = (x, d) :: outer)
    [∀ v, Careful (rest v)] (second : Decides ⟨o :: os, classes⟩ (rest (some (x, outer.length))) Q Γ') :
    Decides ⟨o :: os, classes⟩ (loopVariable >>= rest) Q Γ' := by
  refine .get (fun s holds => ?_) second
  have known := holds.first.locals.trans locals
  cases all : s.body.locals with
  | nil => rw [all] at known; cases known
  | cons v L =>
    rw [all, List.map_cons] at known
    obtain ⟨head, tail⟩ := List.cons.inj known
    have length : L.length = outer.length := by rw [← tail, List.length_map]
    dsimp only
    rw [length, show v.name = x from (Prod.mk.inj head).1]

lemma decides_initializer {rest : Option (String × Nat) → Compiling Unit} (settled : o.Settled)
    (regular : Regular (o :: os)) (proper : first.Proper) (fits : first.Fits o.names)
    (deep : first.depth ≤ n) (room : Room (o.constants ++ first.constants (env (o :: os))))
    (allowed : o.Allows (first.mentions (env (o :: os)))) (fresh : o.here = some [])
    [∀ v, Careful (rest v)]
    (second : Decides
      ⟨(o.begins first).spend (first.constants (env (o :: os))) first.size :: os, classes⟩
      (rest (first.ownSlot? o.locals.length)) Q Γ') :
    Decides ⟨o :: os, classes⟩ (first.build n >>= rest) (first.Lawful classes ∧ Q) Γ' := by
  have ready := settled.ready regular
  cases first with
  | none =>
    show Decides _ (advance >>= fun _ => rest none) _ _
    refine (decides_advance.after fun _ => ?_).congr (and_iff_right (show _ from trivial)).symm
    have known : Decides ⟨o :: os, classes⟩ (pure ()) True fun _ => ⟨o.spend [] 0 :: os, classes⟩ :=
      (Decides.pure ()).loosen fun _ => ⟨rfl, rfl, rfl, List.append_nil _, rfl, Nat.le_refl _,
        List.Subset.refl _⟩
    exact known.after fun _ => second
  | var x value =>
    show Decides _ (advance >>= fun _ => buildBinding x value n >>= fun _ => loopVariable >>= rest) _ _
    have inner : o.depth ≠ 0 := fun top => by
      unfold Outline.here at fresh
      rw [if_pos top] at fresh
      exact nomatch fresh
    have local_ : o.top = false := decide_eq_false inner
    have binding : Decides ⟨o :: os, classes⟩ _ (Fresh _ x ∧ ClauseLawful _ _ _) _ :=
      decides_buildBinding settled regular proper.1 fits.1
        (Or.inr (Nat.lt_of_succ_lt fits.2)) deep (by rw [local_]; exact room) allowed
    rw [local_, fresh] at binding
    have declares : (o.declare x).locals = (x, some o.depth) :: o.locals := if_neg inner
    have bound : Decides ⟨o :: os, classes⟩ (buildBinding x value n)
        (ClauseLawful (some x) classes value) fun _ =>
        ⟨(o.begins (.var x value)).spend (clauseConstants (env (o :: os)) value) (clauseSize 0 1 value)
          :: os, classes⟩ := by
      refine (binding.congr (and_iff_right fun names here => ?_)).loosen fun _ =>
        ⟨rfl, rfl, declares.symm, rfl, rfl, Nat.le_refl _, List.Subset.refl _⟩
      rw [← Option.some.inj here]
      exact List.not_mem_nil
    exact decides_advance.after fun _ => bound.bind fun _ => decides_loopVariable rfl second
  | expression e =>
    show Decides _ (e.expression n >>= fun _ => advance >>= fun _ => emit .pop >>= fun _ =>
      rest Option.none) (e.Lawful Option.none classes ∧ Q) Γ'
    have value : Decides ⟨o :: os, classes⟩ (e.expression n) (e.Lawful Option.none classes)
        fun _ => ⟨o.spend (e.constants (env (o :: os))) e.size :: os, classes⟩ := by
      rw [← settled.pending]
      exact decides_expression ready fits deep room allowed
    have popped : Decides ⟨o.spend (e.constants (env (o :: os))) e.size :: os, classes⟩ (emit .pop) True
        fun _ => ⟨o.spend (e.constants (env (o :: os))) (e.size + 1) :: os, classes⟩ :=
      decides_emitSized .pop 1 rfl
    exact value.bind fun _ => decides_advance.after fun _ => popped.after fun _ => second

/-- The slot of the last variable is looked up. -/
lemma decides_lastSlot (some : o.locals ≠ []) :
    Decides ⟨o :: os, classes⟩ lastSlot True fun _ => ⟨o :: os, classes⟩ := by
  refine .get (f := pure (o.locals.length - 1)) (fun s holds => ?_) (Decides.pure _)
  have known := holds.first.locals
  cases all : s.body.locals with
  | nil => rw [all] at known; exact absurd known.symm some
  | cons v L =>
    rw [← known, all, List.length_map]
    rfl

/-- The body of a for loop, with the copy of its variable. -/
lemma decides_forBody {act : Compiling Unit} {slot : Nat} (settled : o.Settled)
    (places : (first.ownSlot? slot).isSome → o.locals.length < maxOperands)
    (body : Decides ⟨o.turns first :: os, classes⟩ act P
      fun _ => ⟨(o.turns first).spend ls bytes :: os, classes⟩) :
    Decides ⟨o :: os, classes⟩ (forBody (bodyLevel act) (first.ownSlot? slot)) P
      fun _ => ⟨o.spend ls (bytes + first.copySize) :: os, classes⟩ := by
  cases first with
  | var x value =>
    have declares : Decides ⟨(o.enter.grow 2).push x :: os, classes⟩ markInitialized True
        fun _ => ⟨o.turns (.var x value) :: os, classes⟩ :=
      decides_markInitialized (o := (o.enter.grow 2).push x) rfl (Nat.succ_ne_zero _)
    have leaves : Decides ⟨((((o.turns (.var x value)).spend ls bytes).grow 2).grow 2).grow 1 :: os, classes⟩
        endScope True fun _ => ⟨o.spend ls (bytes + 8) :: os, classes⟩ := by
      refine (decides_endScope
        (o := ((((o.turns (.var x value)).spend ls bytes).grow 2).grow 2).grow 1)
        (show _ = [(x, some (o.depth + 1))] ++ o.locals from rfl) ?_ ?_).loosen fun _ =>
          ⟨rfl, rfl, rfl, rfl, rfl, ?_, List.Subset.refl _⟩
      · exact fun v there => List.mem_singleton.1 there ▸ rfl
      · intro v there
        obtain ⟨d, le, given⟩ := settled v there
        exact ⟨d, Nat.lt_succ_of_le le, given⟩
      · show o.size + 2 + bytes + 2 + 2 + 1 + 1 ≤ o.size + (bytes + 8)
        omega
    exact decides_beginScope.after fun _ => (decides_emitSized _ 2 rfl).after fun _ =>
      (decides_addLocal (o := o.enter.grow 2) (places rfl)).after fun _ => declares.after fun _ =>
        (decides_lastSlot (List.cons_ne_nil _ _)).after fun copy => body.before fun _ =>
          (decides_emitSized (.getLocal (UInt8.ofNat copy)) 2 rfl).after fun _ =>
            (decides_emitSized (.setLocal (UInt8.ofNat slot)) 2 rfl).after fun _ =>
              (decides_emitSized .pop 1 rfl).after fun _ => leaves
  | none => exact body
  | expression e => exact body

end Loops

end Lox.Compile
