import Lox.Proofs.Compile.Decisions

/-!
# Lawful trees

Compiling a tree that is within the limits complains exactly if the tree is not lawful
(`Expr.decides`, `Stmt.decides`).  The limits are those of the functions that are open, so they are
asked for phrase by phrase: there is room for the constants that the phrase needs, the function
captures what the phrase mentions, and the phrase is not nested too deeply.
-/

namespace Lox.Compile

open Syntax

variable {α β : Type} {Γ : Outlook} {P Q : Prop} {o : Outline} {os : List Outline} {classes : List Bool}

/-! ## Needs -/

/-- The function may capture these variables, as far as they are of functions further out. -/
def Outline.Allows (o : Outline) (vs : List Variable) : Prop :=
  ∀ v ∈ vs, ∀ w ∈ v.captured?, w ∈ o.captured

lemma Outline.allows_append {vs vs' : List Variable} :
    o.Allows (vs ++ vs') ↔ o.Allows vs ∧ o.Allows vs' := List.forall_mem_append

lemma Outline.allows_cons {v : Variable} {vs : List Variable} :
    o.Allows (v :: vs) ↔ (∀ w ∈ v.captured?, w ∈ o.captured) ∧ o.Allows vs := List.forall_mem_cons

/-- There is room first for some of the constants and then for the others. -/
lemma Room.split {ls first second : List Literal} (h : Room (ls ++ (first ++ second))) :
    Room (ls ++ first) ∧ Room (ls ++ first ++ second) := by
  rw [← List.append_assoc] at h
  exact ⟨h.before, h⟩

lemma Room.cons {ls second : List Literal} {l : Literal} (h : Room (ls ++ l :: second)) :
    Room (ls ++ [l]) ∧ Room (ls ++ [l] ++ second) := by
  rw [List.append_cons] at h
  exact ⟨h.before, h⟩

lemma Room.last {ls first second : List Literal} (h : Room (ls ++ (first ++ second))) :
    Room (ls ++ first) ∧ Room (ls ++ first ++ second) := h.split

/-- Constants are asked for, and the code grows. -/
def Outline.spend (o : Outline) (ls : List Literal) (bytes : Nat) : Outline := (o.ask ls).grow bytes

lemma Outline.size_spend {ls : List Literal} {bytes : Nat} : (o.spend ls bytes).size = o.size + bytes :=
  rfl

lemma Outline.size_grow {bytes : Nat} : (o.grow bytes).size = o.size + bytes := rfl

lemma Outline.size_mark {place : Nat} : (o.mark place).size = o.size := rfl

lemma Outline.size_ask {ls : List Literal} : (o.ask ls).size = o.size := rfl

/-- The innermost function is as good as the functions around it have to be. -/
structure Ready (o : Outline) (os : List Outline) : Prop where
  sound : o.Sound
  regular : Regular (o :: os)
  /-- A variable without a value is one of the program. -/
  plain : ∀ x ∈ o.pending, ProperName x

lemma Regular.head {o' : Outline} (h : Regular (o :: os)) (captured : o'.captured = o.captured) :
    Regular (o' :: os) where
  settled := h.settled
  few := List.forall_mem_cons.2
    ⟨captured ▸ h.few o List.mem_cons_self, fun o there => h.few o (List.mem_cons_of_mem _ there)⟩
  nested := by
    cases os with
    | nil => trivial
    | cons o₁ os =>
      obtain ⟨here, further⟩ := h.nested
      exact ⟨captured ▸ here, further⟩

lemma Ready.spend {ls : List Literal} {bytes : Nat} (h : Ready o os) : Ready (o.spend ls bytes) os :=
  ⟨h.sound, h.regular.head rfl, h.plain⟩

lemma Ready.grow {bytes : Nat} (h : Ready o os) : Ready (o.grow bytes) os :=
  ⟨h.sound, h.regular.head rfl, h.plain⟩

lemma Ready.ask {ls : List Literal} (h : Ready o os) : Ready (o.ask ls) os :=
  ⟨h.sound, h.regular.head rfl, h.plain⟩

lemma Ready.mark {place : Nat} (h : Ready o os) : Ready (o.mark place) os :=
  ⟨h.sound, h.regular.head rfl, h.plain⟩

/-- Words that are not names of variables are never names without a value. -/
lemma Ready.this (h : Ready o os) : o.pending ≠ some "this" :=
  fun pending => (h.plain "this" pending).2.1 rfl

lemma Ready.super (h : Ready o os) : o.pending ≠ some "super" :=
  fun pending => (h.plain "super" pending).2.2 rfl

namespace Decides

/-- Nothing else is known of the innermost function than that so much has been spent. -/
lemma spending {act : Compiling α} {o' : α → Outline} {ls : List Literal} {bytes : Nat}
    (h : Decides Γ act P fun a => ⟨o' a :: os, classes⟩)
    (loose : ∀ a, (o' a).Loosens (o.spend ls bytes)) :
    Decides Γ act P fun _ => ⟨o.spend ls bytes :: os, classes⟩ := h.loosen loose

/-- An action that decides nothing comes last. -/
lemma before {act : Compiling α} {f : α → Compiling β} {Γ₁ : α → Outlook} {Γ₂ : β → Outlook}
    (first : Decides Γ act P Γ₁) (second : ∀ a, Decides (Γ₁ a) (f a) True Γ₂) :
    Decides Γ (act >>= f) P Γ₂ := (first.bind second).congr (and_iff_left trivial)

/-- What is complained of if a condition holds, and nothing else. -/
lemma refuse {c : Prop} [Decidable c] (complaint : Complaint) :
    Decides Γ (if c then Compile.complain complaint else Pure.pure ()) (¬c) fun _ => Γ := by
  by_cases h : c
  · rw [if_pos h]
    exact (complain complaint fun _ => Γ).congr ⟨False.elim, fun not => not h⟩
  · rw [if_neg h]
    exact (pure ()).congr ⟨fun _ => h, fun _ => trivial⟩

end Decides

/-- A phrase one level further in. -/
lemma decides_within {phrase : Nat → Compiling Unit} {n depth : Nat} {Γ' : Unit → Outlook}
    (deep : depth + 1 ≤ n) (second : ∀ m, depth ≤ m → Decides Γ (phrase m) P Γ') :
    Decides Γ (within n phrase) P Γ' := by
  cases n with
  | zero => exact absurd deep (Nat.not_succ_le_zero _)
  | succ m => exact second m (Nat.le_of_succ_le_succ deep)

/-! ## Words -/

/-- An instruction of a known size. -/
lemma decides_emitSized (i : Instr) (bytes : Nat) (size : i.size = bytes) :
    Decides ⟨o :: os, classes⟩ (emit i) True fun _ => ⟨o.grow bytes :: os, classes⟩ :=
  size ▸ decides_emit i

lemma size_read (place : Access) : place.read.size = 2 := by cases place <;> rfl

lemma size_write (place : Access) : place.write.size = 2 := by cases place <;> rfl

lemma decides_emitWord (kind : TokenKind) :
    Decides ⟨o :: os, classes⟩ (emitWord (leading? kind)) True fun _ => ⟨o.grow 1 :: os, classes⟩ := by
  have nothing : o.Loosens (o.grow 1) :=
    ⟨rfl, rfl, rfl, rfl, rfl, Nat.le_succ _, List.Subset.refl _⟩
  cases kind <;> first
    | exact decides_emit _
    | exact (Decides.pure ()).loosen fun _ => nothing

lemma decides_emitAll (is : List Instr) (small : ∀ i ∈ is, i.size = 1) :
    ∀ o : Outline, Decides ⟨o :: os, classes⟩ (is.forM emit) True
      fun _ => ⟨o.grow is.length :: os, classes⟩ := by
  induction is with
  | nil => exact fun o => Decides.pure ()
  | cons i is ih =>
    intro o
    have first : Decides ⟨o :: os, classes⟩ _ True _ := decides_emit i
    rw [small i List.mem_cons_self] at first
    refine (first.after fun _ => ih (fun j there => small j (List.mem_cons_of_mem _ there)) _).loosen
      fun _ => ⟨rfl, rfl, rfl, rfl, rfl, ?_, List.Subset.refl _⟩
    show o.size + 1 + is.length ≤ o.size + (is.length + 1)
    omega

lemma decides_emitOperator (op : TokenKind) :
    Decides ⟨o :: os, classes⟩ (emitOperator (trailing? op)) True
      fun _ => ⟨o.grow (operatorSize op) :: os, classes⟩ := by
  cases op <;> first
    | exact decides_emitAll _ (by decide) o
    | exact Decides.pure ()

/-! ## Classes -/

lemma checkSuper_apply (s : State) :
    checkSuper s = (match s.classes with
      | [] => complain .superOutsideClass
      | false :: _ => complain .superWithoutSuperclass
      | true :: _ => pure () : Compiling Unit) s := rfl

/-- The open classes are known. -/
lemma decides_checkSuper :
    Decides ⟨os, classes⟩ checkSuper (classes.head? = some true) fun _ => ⟨os, classes⟩ := by
  rcases classes with _ | ⟨_ | _, further⟩
  · exact ((Decides.complain .superOutsideClass _).congr (iff_of_false id (by simp))).of_eq
      fun s holds => by rw [checkSuper_apply, holds.classes]
  · exact ((Decides.complain .superWithoutSuperclass _).congr (iff_of_false id (by simp))).of_eq
      fun s holds => by rw [checkSuper_apply, holds.classes]
  · exact ((Decides.pure ()).congr (iff_of_true trivial rfl)).of_eq
      fun s holds => by rw [checkSuper_apply, holds.classes]

variable {x m : String}

lemma decides_readThis (ready : Ready o os)
    (allowed : ∀ v ∈ (meaning "this" (env (o :: os))).captured?, v ∈ o.captured)
    (room : Room (o.constants ++ nameConstants (env (o :: os)) "this")) :
    Decides ⟨o :: os, classes⟩ readThis (classes ≠ [])
      fun _ => ⟨o.spend (nameConstants (env (o :: os)) "this") 2 :: os, classes⟩ := by
  refine .get (f := if classes.isEmpty then complain .thisOutsideClass else readVariable "this")
    (fun s holds => by rw [holds.classes]) ?_
  cases classes with
  | nil => exact (Decides.complain _ _).congr ⟨False.elim, fun no => no rfl⟩
  | cons c classes =>
    exact (decides_readVariable ready.sound ready.regular allowed room).congr
      ⟨fun _ => List.cons_ne_nil _ _, fun _ => ready.this⟩

lemma decides_superMethod (ready : Ready o os)
    (allowed : ∀ v ∈ (meaning "this" (env (o :: os))).captured?, v ∈ o.captured)
    (room : Room (o.constants ++ ([.string m] ++ nameConstants (env (o :: os)) "this"))) :
    Decides ⟨o :: os, classes⟩ (superMethod m) (classes.head? = some true)
      fun _ => ⟨o.spend (.string m :: nameConstants (env (o :: os)) "this") 2 :: os, classes⟩ := by
  obtain ⟨first, second⟩ := room.split
  have reads : Decides ⟨o.ask [.string m] :: os, classes⟩ (readVariable "this") _ _ :=
    decides_readVariable ready.sound (ready.regular.head rfl) allowed second
  have all := decides_advance.after fun _ => decides_checkSuper.bind fun _ =>
    decides_advance.after fun _ => decides_advance.after fun _ =>
      (decides_stringConstant first).after fun name => (reads.congr (iff_true_intro ready.this)).after
        fun _ => Decides.pure name
  refine (all.congr (and_iff_left trivial)).spending fun _ =>
    ⟨rfl, rfl, rfl, ?_, rfl, Nat.le_refl _, List.Subset.refl _⟩
  exact (List.append_assoc _ [_] _).symm

/-! ## Arguments -/

lemma decides_checkArgument {count : Nat} (less : count < maxArity) :
    Decides Γ (checkArgument count) True fun _ => Γ := by
  unfold checkArgument
  rw [if_neg (Nat.ne_of_lt less)]
  exact Decides.pure ()

/-! ## Expressions -/

section Expressions

open Outline

/-- A constant on the stack. -/
lemma decides_emitConstant {c : Constant} (plain : ∀ p, c ≠ .prototype p)
    (room : Room (o.constants ++ [c.literal])) :
    Decides ⟨o :: os, classes⟩ (emitConstant c) True fun _ => ⟨o.spend [c.literal] 2 :: os, classes⟩ :=
  (decides_makeConstant plain room).after fun _ => decides_emit _

lemma decides_emitString {content : String} (room : Room (o.constants ++ [.string content])) :
    Decides ⟨o :: os, classes⟩ (do emitConstant (.string (← internString content))) True
      fun _ => ⟨o.spend [.string content] 2 :: os, classes⟩ := by
  have all : Decides ⟨o :: os, classes⟩ (do
      let index ← stringConstant content
      emit (.constant index)) True _ :=
    (decides_stringConstant room).after fun index => decides_emitSized (.constant index) 2 rfl
  unfold stringConstant at all
  rw [bind_assoc] at all
  exact all

/-- The right operand is skipped where the left one decides. -/
lemma decides_and {act : Compiling Unit} {ls : List Literal} {bytes : Nat}
    (near : bytes + 1 ≤ maxDistance)
    (right : ∀ stop : JumpSite, Decides ⟨((o.grow 3).mark stop.start).grow 1 :: os, classes⟩ act P
      fun _ => ⟨(((o.grow 3).mark stop.start).grow 1).spend ls bytes :: os, classes⟩) :
    Decides ⟨o :: os, classes⟩ (do
      let stop ← emitJump .jumpIfFalse
      emit .pop
      act
      land stop) P fun _ => ⟨o.spend ls (bytes + 4) :: os, classes⟩ := by
  refine (decides_emitJump .jumpIfFalse fun _ => rfl).after fun stop => ?_
  have lands : Decides ⟨(((o.grow 3).mark stop.start).grow 1).spend ls bytes :: os, classes⟩
      (land stop) True _ :=
    decides_land stop List.mem_cons_self (by
      rw [size_spend, size_grow, size_mark]
      omega)
  have all : Decides ⟨(o.grow 3).mark stop.start :: os, classes⟩ (do emit .pop; act; land stop) P _ :=
    (decides_emitSized .pop 1 rfl).after fun _ => (right stop).before fun _ => lands
  refine all.spending fun _ => ⟨rfl, rfl, rfl, rfl, rfl, ?_, List.subset_cons_self _ _⟩
  rw [size_spend, size_spend, size_grow, size_mark, size_grow]
  omega

/-- The right operand is jumped over where the left one decides, and is jumped to otherwise. -/
lemma decides_or {act : Compiling Unit} {ls : List Literal} {bytes : Nat}
    (near : bytes + 1 ≤ maxDistance)
    (second : ∀ right stop : JumpSite,
      Decides ⟨((((o.grow 3).mark right.start).grow 3).mark stop.start).grow 1 :: os, classes⟩ act P
        fun _ => ⟨(((((o.grow 3).mark right.start).grow 3).mark stop.start).grow 1).spend ls bytes
          :: os, classes⟩) :
    Decides ⟨o :: os, classes⟩ (do
      let right ← emitJump .jumpIfFalse
      let stop ← emitJump .jump
      land right
      emit .pop
      act
      land stop) P fun _ => ⟨o.spend ls (bytes + 7) :: os, classes⟩ := by
  refine (decides_emitJump .jumpIfFalse fun _ => rfl).after fun right =>
    (decides_emitJump .jump fun _ => rfl).after fun stop => ?_
  have arrives : Decides ⟨(((o.grow 3).mark right.start).grow 3).mark stop.start :: os, classes⟩
      (land right) True _ :=
    decides_land right (List.mem_cons_of_mem _ List.mem_cons_self) (by
      rw [size_mark, size_grow, size_mark]
      exact Nat.add_le_add_left (Nat.le_of_ble_eq_true rfl) _)
  have lands : Decides ⟨(((((o.grow 3).mark right.start).grow 3).mark stop.start).grow 1).spend ls bytes
      :: os, classes⟩ (land stop) True _ :=
    decides_land stop List.mem_cons_self (by
      rw [size_spend, size_grow, size_mark]
      omega)
  have all : Decides ⟨(((o.grow 3).mark right.start).grow 3).mark stop.start :: os, classes⟩
      (do land right; emit .pop; act; land stop) P _ :=
    arrives.after fun _ => (decides_emitSized .pop 1 rfl).after fun _ =>
      (second right stop).before fun _ => lands
  refine all.spending fun _ => ⟨rfl, rfl, rfl, rfl, rfl, ?_,
    List.Subset.trans (List.subset_cons_self _ _) (List.subset_cons_self _ _)⟩
  rw [size_spend, size_spend, size_grow, size_mark, size_grow, size_mark, size_grow]
  omega

end Expressions

end Lox.Compile

namespace Lox.Syntax

open Compile Compile.Outline

/-- An expression is one argument. -/
lemma Expr.single (e : Expr .expression) : 0 + e.count ≤ maxArity := by
  have one : e.count = 1 := by cases e <;> rfl
  rw [one]
  exact Nat.le_of_ble_eq_true rfl

theorem Expr.decides {s : ExprSort} (e : Expr s) :
    ∀ (n count : Nat) {o : Outline} {os : List Outline} {classes : List Bool}, Ready o os →
      e.Fits → e.depth ≤ n → count + e.count ≤ maxArity →
      Room (o.constants ++ e.constants (env (o :: os))) → o.Allows (e.mentions (env (o :: os))) →
      Decides ⟨o :: os, classes⟩ (e.build n count) (e.Lawful o.pending classes)
        fun _ => ⟨o.spend (e.constants (env (o :: os))) e.size :: os, classes⟩ := by
  induction e with
  | number text =>
    intro n count o os classes ready fits deep few room allowed
    exact decides_advance.after fun _ => decides_emitConstant (fun _ no => (nomatch no)) room
  | string text =>
    intro n count o os classes ready fits deep few room allowed
    exact decides_advance.after fun _ => decides_emitString room
  | literal kind =>
    intro n count o os classes ready fits deep few room allowed
    refine (decides_advance.after fun _ => decides_emitWord kind).spending
      fun _ => ⟨rfl, rfl, rfl, ?_, rfl, Nat.le_refl _, List.Subset.refl _⟩
    exact List.append_nil _
  | name x =>
    intro n count o os classes ready fits deep few room allowed
    exact decides_advance.after fun _ =>
      decides_readVariable ready.sound ready.regular (allowed _ List.mem_cons_self) room
  | assign x value ih =>
    intro n count o os classes ready fits deep few room allowed
    obtain ⟨here, later⟩ := room.split
    obtain ⟨own, others⟩ := allows_cons.1 allowed
    have all : Decides ⟨o :: os, classes⟩ _ _ _ :=
      decides_advance.after fun _ =>
      (decides_access ready.sound ready.regular own here).bind fun place =>
        decides_advance.after fun _ => (decides_within deep fun m deep =>
          ih m 0 (o := o.spend (nameConstants (env (o :: os)) x) 0) ready.spend fits deep
            value.single later others).before fun _ =>
              decides_emitSized _ 2 (size_write place)
    exact all.spending fun _ => ⟨rfl, rfl, rfl, (List.append_assoc _ _ _).symm, rfl, Nat.le_refl _,
      List.Subset.refl _⟩
  | this =>
    intro n count o os classes ready fits deep few room allowed
    exact decides_advance.after fun _ => decides_readThis ready (allowed _ List.mem_cons_self) room
  | superGet m =>
    intro n count o os classes ready fits deep few room allowed
    obtain ⟨own, others⟩ := allows_cons.1 allowed
    have split : Room (o.constants ++
        (.string m :: nameConstants (env (o :: os)) "this" ++ nameConstants (env (o :: os)) "super")) :=
      room
    obtain ⟨here, later⟩ := split.split
    have reads : Decides ⟨o.spend (.string m :: nameConstants (env (o :: os)) "this") 2 :: os, classes⟩
        (readVariable "super") _ _ :=
      decides_readVariable ready.sound (ready.regular.head rfl) (others _ List.mem_cons_self) later
    have all : Decides ⟨o :: os, classes⟩ _ _ _ :=
      (decides_superMethod ready own here).before fun name =>
      (reads.congr (iff_true_intro ready.super)).after fun _ =>
        decides_emitSized (.getSuper name) 2 rfl
    exact all.spending fun _ => ⟨rfl, rfl, rfl, (List.append_assoc _ (_ :: _) _).symm, rfl,
      Nat.le_refl _, List.Subset.refl _⟩
  | superCall m args ih =>
    intro n count o os classes ready fits deep few room allowed
    obtain ⟨own, others⟩ := allows_cons.1 allowed
    obtain ⟨super, others⟩ := allows_cons.1 others
    have split : Room (o.constants ++ (.string m :: nameConstants (env (o :: os)) "this" ++
        (args.constants (env (o :: os)) ++ nameConstants (env (o :: os)) "super"))) := room
    obtain ⟨here, later⟩ := split.split
    obtain ⟨later, last⟩ := later.split
    have reads : Decides ⟨(o.spend (.string m :: nameConstants (env (o :: os)) "this") 2).spend
        (args.constants (env (o :: os))) args.size :: os, classes⟩ (readVariable "super") _ _ :=
      decides_readVariable ready.sound (ready.regular.head rfl) super last
    have all : Decides ⟨o :: os, classes⟩ _ _ _ :=
      (decides_superMethod ready own here).bind fun name =>
      decides_advance.after fun _ => (ih n 0 ready.spend fits.2 deep
        ((Nat.zero_add _).le.trans fits.1) later others).before fun _ => decides_advance.after fun _ =>
          (reads.congr (iff_true_intro ready.super)).after fun _ =>
            decides_emitSized (.superInvoke name (argumentCount args)) 3 rfl
    refine all.spending fun _ => ⟨rfl, rfl, rfl, ?_, rfl, ?_, List.Subset.refl _⟩
    · exact ((List.append_assoc _ _ _).trans (List.append_assoc _ (_ :: _) _)).symm
    · show o.size + 2 + args.size + 2 + 3 ≤ o.size + (args.size + 7)
      omega
  | grouping e ih =>
    intro n count o os classes ready fits deep few room allowed
    exact decides_advance.after fun _ => (decides_within deep fun m deep =>
      ih m 0 ready fits deep e.single room allowed).before fun _ => decides_advance
  | unary op e ih =>
    intro n count o os classes ready fits deep few room allowed
    have all : Decides ⟨o :: os, classes⟩ _ _ _ :=
      decides_advance.after fun _ => (decides_within deep fun m deep =>
      ih m 0 ready fits deep e.single room allowed).before fun _ => decides_emitWord op
    exact all.spending fun _ => ⟨rfl, rfl, rfl, rfl, rfl, Nat.le_refl _, List.Subset.refl _⟩
  | binary op l r ihl ihr =>
    intro n count o os classes ready fits deep few room allowed
    obtain ⟨here, later⟩ := room.split
    obtain ⟨own, others⟩ := allows_append.1 allowed
    obtain ⟨deepL, deepR⟩ := Nat.max_le.1 deep
    have all : Decides ⟨o :: os, classes⟩ _ _ _ :=
      (ihl n 0 ready fits.1 deepL l.single here own).bind fun _ =>
      decides_advance.after fun _ => (decides_within deepR fun m deep =>
        ihr m 0 ready.spend fits.2 deep r.single later others).before fun _ => decides_emitOperator op
    refine all.spending fun _ => ⟨rfl, rfl, rfl, (List.append_assoc _ _ _).symm, rfl, ?_,
      List.Subset.refl _⟩
    rw [size_grow, size_spend, size_spend, size_spend, Expr.size]
    omega
  | and l r ihl ihr =>
    intro n count o os classes ready fits deep few room allowed
    obtain ⟨here, later⟩ := room.split
    obtain ⟨own, others⟩ := allows_append.1 allowed
    obtain ⟨deepL, deepR⟩ := Nat.max_le.1 deep
    obtain ⟨fitsL, fitsR, near⟩ := fits
    let o₁ := o.spend (l.constants (env (o :: os))) l.size
    have right : ∀ stop : JumpSite,
        Decides ⟨((o₁.grow 3).mark stop.start).grow 1 :: os, classes⟩ (within n (r.build · 0))
          (r.Lawful o.pending classes) fun _ => ⟨(((o₁.grow 3).mark stop.start).grow 1).spend
            (r.constants (env (o :: os))) r.size :: os, classes⟩ := fun stop =>
      decides_within deepR fun m deep =>
        ihr m 0 ready.spend.grow.mark.grow fitsR deep r.single later others
    have all : Decides ⟨o :: os, classes⟩ _ _ _ :=
      (ihl n 0 ready fitsL deepL l.single here own).bind fun _ => decides_advance.after fun _ =>
        decides_and near right
    refine all.spending fun _ => ⟨rfl, rfl, rfl, (List.append_assoc _ _ _).symm, rfl, ?_,
      List.Subset.refl _⟩
    rw [size_spend, size_spend, size_spend, Expr.size]
    omega
  | or l r ihl ihr =>
    intro n count o os classes ready fits deep few room allowed
    obtain ⟨here, later⟩ := room.split
    obtain ⟨own, others⟩ := allows_append.1 allowed
    obtain ⟨deepL, deepR⟩ := Nat.max_le.1 deep
    obtain ⟨fitsL, fitsR, near⟩ := fits
    let o₁ := o.spend (l.constants (env (o :: os))) l.size
    have second : ∀ right stop : JumpSite,
        Decides ⟨((((o₁.grow 3).mark right.start).grow 3).mark stop.start).grow 1 :: os, classes⟩
          (within n (r.build · 0)) (r.Lawful o.pending classes)
          fun _ => ⟨(((((o₁.grow 3).mark right.start).grow 3).mark stop.start).grow 1).spend
            (r.constants (env (o :: os))) r.size :: os, classes⟩ := fun right stop =>
      decides_within deepR fun m deep =>
        ihr m 0 ready.spend.grow.mark.grow.mark.grow fitsR deep r.single later others
    have all : Decides ⟨o :: os, classes⟩ _ _ _ :=
      (ihl n 0 ready fitsL deepL l.single here own).bind fun _ => decides_advance.after fun _ =>
        decides_or near second
    refine all.spending fun _ => ⟨rfl, rfl, rfl, (List.append_assoc _ _ _).symm, rfl, ?_,
      List.Subset.refl _⟩
    rw [size_spend, size_spend, size_spend, Expr.size]
    omega
  | call f args ihf ih =>
    intro n count o os classes ready fits deep few room allowed
    obtain ⟨here, later⟩ := room.split
    obtain ⟨own, others⟩ := allows_append.1 allowed
    obtain ⟨deepF, deepA⟩ := Nat.max_le.1 deep
    obtain ⟨fitsF, arity, fitsA⟩ := fits
    have all : Decides ⟨o :: os, classes⟩ _ _ _ :=
      (ihf n 0 ready fitsF deepF f.single here own).bind fun _ =>
      decides_advance.after fun _ => (ih n 0 ready.spend fitsA deepA
        ((Nat.zero_add _).le.trans arity) later others).before fun _ => decides_advance.after fun _ =>
          decides_emitSized (.call (argumentCount args)) 2 rfl
    refine all.spending fun _ => ⟨rfl, rfl, rfl, (List.append_assoc _ _ _).symm, rfl, ?_,
      List.Subset.refl _⟩
    rw [size_grow, size_spend, size_spend, size_spend, Expr.size]
    omega
  | get e p ih =>
    intro n count o os classes ready fits deep few room allowed
    obtain ⟨here, later⟩ := room.last
    have all : Decides ⟨o :: os, classes⟩ _ _ _ :=
      (ih n 0 ready fits deep e.single here allowed).before fun _ =>
      decides_advance.after fun _ => decides_advance.after fun _ =>
        (@decides_stringConstant _ _ _ p later).after fun name =>
          decides_emitSized (.getProperty name) 2 rfl
    exact all.spending fun _ => ⟨rfl, rfl, rfl, (List.append_assoc _ _ _).symm, rfl, Nat.le_refl _,
      List.Subset.refl _⟩
  | set e p value ihe ih =>
    intro n count o os classes ready fits deep few room allowed
    obtain ⟨here, later⟩ := room.split
    obtain ⟨property, later⟩ := Room.cons later
    obtain ⟨own, others⟩ := allows_append.1 allowed
    obtain ⟨deepE, deepV⟩ := Nat.max_le.1 deep
    have all : Decides ⟨o :: os, classes⟩ _ _ _ :=
      (ihe n 0 ready fits.1 deepE e.single here own).bind fun _ =>
        decides_advance.after fun _ => decides_advance.after fun _ =>
          (decides_stringConstant property).after fun name => decides_advance.after fun _ =>
            (decides_within deepV fun m deep => ih m 0
              (o := (o.spend (e.constants (env (o :: os))) e.size).ask [.string p])
              ready.spend.ask fits.2 deep value.single later others).before fun _ =>
                decides_emitSized (.setProperty name) 2 rfl
    refine all.spending fun _ => ⟨rfl, rfl, rfl, ?_, rfl, ?_, List.Subset.refl _⟩
    · exact ((List.append_assoc (_ ++ _) [_] _).trans (List.append_assoc _ _ _)).symm
    · rw [size_grow, size_spend, size_ask, size_spend, size_spend, Expr.size]
      omega
  | invoke e p args ihe ih =>
    intro n count o os classes ready fits deep few room allowed
    obtain ⟨here, later⟩ := room.split
    obtain ⟨property, later⟩ := Room.cons later
    obtain ⟨own, others⟩ := allows_append.1 allowed
    obtain ⟨deepE, deepA⟩ := Nat.max_le.1 deep
    obtain ⟨fitsE, arity, fitsA⟩ := fits
    have all : Decides ⟨o :: os, classes⟩ _ _ _ :=
      (ihe n 0 ready fitsE deepE e.single here own).bind fun _ =>
        decides_advance.after fun _ => decides_advance.after fun _ =>
          (decides_stringConstant property).after fun name => decides_advance.after fun _ =>
            (ih n 0 (o := (o.spend (e.constants (env (o :: os))) e.size).ask [.string p])
              ready.spend.ask fitsA deepA ((Nat.zero_add _).le.trans arity) later others).before
              fun _ => decides_advance.after fun _ =>
                decides_emitSized (.invoke name (argumentCount args)) 3 rfl
    refine all.spending fun _ => ⟨rfl, rfl, rfl, ?_, rfl, ?_, List.Subset.refl _⟩
    · exact ((List.append_assoc (_ ++ _) [_] _).trans (List.append_assoc _ _ _)).symm
    · rw [size_grow, size_spend, size_ask, size_spend, size_spend, Expr.size]
      omega
  | noArguments =>
    intro n count o os classes ready fits deep few room allowed
    exact (Decides.pure ()).spending fun _ => ⟨rfl, rfl, rfl, List.append_nil _, rfl, Nat.le_refl _,
      List.Subset.refl _⟩
  | someArguments args ih =>
    intro n count o os classes ready fits deep few room allowed
    exact ih n count ready fits deep few room allowed
  | lastArgument e ih =>
    intro n count o os classes ready fits deep few room allowed
    exact (decides_within deep fun m deep => ih m 0 ready fits deep e.single room allowed).before fun _ =>
      decides_checkArgument few
  | argument e args ihe ih =>
    intro n count o os classes ready fits deep few room allowed
    obtain ⟨here, later⟩ := room.split
    obtain ⟨own, others⟩ := allows_append.1 allowed
    obtain ⟨deepE, deepA⟩ := Nat.max_le.1 deep
    have more : count + 1 + args.count ≤ maxArity := by
      rw [Expr.count] at few
      omega
    have all : Decides ⟨o :: os, classes⟩ _ _ _ :=
      (decides_within deepE fun m deep =>
      ihe m 0 ready fits.1 deep e.single here own).bind fun _ =>
        (decides_checkArgument (Nat.lt_of_lt_of_le (Nat.lt_succ_self _)
          ((Nat.le_add_right _ _).trans more))).after fun _ => decides_advance.after fun _ =>
            ih n (count + 1) ready.spend fits.2 deepA more later others
    refine all.spending fun _ => ⟨rfl, rfl, rfl, (List.append_assoc _ _ _).symm, rfl, ?_,
      List.Subset.refl _⟩
    rw [size_spend, size_spend, size_spend, Expr.size]
    omega

end Lox.Syntax
