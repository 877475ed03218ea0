import Lox.Proofs.Compile.Heights
import Lox.Proofs.Compile.Pieces
import Mathlib.Data.List.Chain

/-!
# Slot zero

Slot zero of a method is the instance that it was called on, and no code of the method gives it another
value: an assignment is to a variable that a program can name, and slot zero has no such name
(`Context.Spares`).  An initializer answers with slot zero.  Each return in its code stands behind the
instruction that fetches it, and no jump leads in between; in the same way a method is declared behind the
closure that it is made of, which is that of an initializer if the method has the name of one
(`Context.Prepares`).
-/

namespace Lox

/-! ## Jumps and places -/

/-- A jump in code at an offset leads to a place. -/
def JumpsTo : Nat → List Instr → Nat → Prop
  | _, [], _ => False
  | o, i :: is, t => i.Leads (o + i.size) t ∨ JumpsTo (o + i.size) is t

/-- In code at an offset, an instruction of a sort stands at a place. -/
def StandsAt (T : Instr → Prop) : Nat → List Instr → Nat → Prop
  | _, [], _ => False
  | o, i :: is, t => T i ∧ t = o ∨ StandsAt T (o + i.size) is t

section Places

variable {T : Instr → Prop} {o t : Nat} {i : Instr} {is js : List Instr}

lemma jumpsTo_append : JumpsTo o (is ++ js) t ↔ JumpsTo o is t ∨ JumpsTo (o + codeSize is) js t := by
  induction is generalizing o with
  | nil => simp [JumpsTo]
  | cons i is ih => rw [List.cons_append, JumpsTo, JumpsTo, ih, codeSize_cons, or_assoc, Nat.add_assoc]

lemma standsAt_append : StandsAt T o (is ++ js) t ↔ StandsAt T o is t ∨ StandsAt T (o + codeSize is) js t := by
  induction is generalizing o with
  | nil => simp [StandsAt]
  | cons i is ih => rw [List.cons_append, StandsAt, StandsAt, ih, codeSize_cons, or_assoc, Nat.add_assoc]

lemma JumpsTo.intro {before after : List Instr} (leads : i.Leads (o + codeSize before + i.size) t) :
    JumpsTo o (before ++ i :: after) t :=
  jumpsTo_append.2 (.inr (.inl leads))

lemma StandsAt.intro {before after : List Instr} (sort : T i) :
    StandsAt T o (before ++ i :: after) (o + codeSize before) :=
  standsAt_append.2 (.inr (.inl ⟨sort, rfl⟩))

end Places

/-- The instruction neither jumps nor returns, and assigns to no variable but a global. -/
def Instr.IsEasy : Instr → Prop
  | .setLocal _ | .setUpvalue _ | .closure _ _ | .ret | .method _ | .jump _ | .jumpIfFalse _ | .loop _ => False
  | _ => True

namespace Compile

open Syntax

variable {Γ : Context} {L : List Local}

/-! ## Orderly code -/

/-- The instruction counts on the one before it. -/
def Context.Counts (Γ : Context) : Instr → Prop
  | .ret => Γ.kind = .initializer
  | .method _ => True
  | _ => False

/-- The first of two instructions does what the second one counts on: it fetches slot zero for the return of
an initializer, or makes the closure of a method. -/
def Context.Prepares (Γ : Context) (i : Instr) : Instr → Prop
  | .ret => i = .getLocal 0
  | .method name => ∃ x index captures p Γ' start items, Γ.IsName name x ∧ i = .closure index captures ∧
    Γ.constants[index.toNat]? = some (.prototype p) ∧ Compiled p Γ' start items ∧ Γ'.kind = methodKind x
  | _ => True

/-- The first of the locals is one that a program cannot name. -/
def Rooted (L : List Local) : Prop := ∃ above zero, L = above ++ [zero] ∧ ¬ ProperName zero.name

/-- The instruction assigns to variables that a program can name, and leaves slot zero alone; and if it makes a
closure, that is one of a function which is compiled there. -/
def Context.Spares (Γ : Context) : Instr → Prop
  | .setLocal slot => slot ≠ 0
  | .setUpvalue index => ∃ x, ProperName x ∧ CapturedAs x Γ.captures Γ.around index
  | .closure index captures => ∃ L, Rooted L ∧ MakesClosure Γ L (.closure index captures)
  | _ => True

/-- Jumps keep to the code wherever it is placed, and none leads to an instruction that counts on the one
before it.  That one is there, and does as it should. -/
structure Orderly (Γ : Context) (is : List Instr) : Prop where
  jumps : ∀ {o t}, JumpsTo o is t → o ≤ t ∧ t ≤ o + codeSize is
  stands : ∀ {o t}, StandsAt Γ.Counts o is t → o < t ∧ t < o + codeSize is
  apart : ∀ {o t}, JumpsTo o is t → ¬ StandsAt Γ.Counts o is t
  prepared : is.IsChain fun i j => Γ.Counts j → Γ.Prepares i j
  spares : ∀ i ∈ is, Γ.Spares i

/-- A part of a row at an offset is orderly code, or a jump to one of the places `J`. -/
inductive Part (Γ : Context) (J : Nat → Prop) (o : Nat) : List Instr → Prop where
  | code {is} (orderly : Orderly Γ is) : Part Γ J o is
  | jump {i} (leads : ∀ t, i.Leads (o + i.size) t → J t) (alone : ¬ Γ.Counts i) (spares : Γ.Spares i) :
      Part Γ J o [i]

/-- Parts in a row. -/
def Row (Γ : Context) (J : Nat → Prop) : Nat → List (List Instr) → Prop
  | _, [] => True
  | o, p :: ps => Part Γ J o p ∧ Row Γ J (o + codeSize p) ps

/-- One of the parts, which are placed at an offset, starts there, or else the last one ends there. -/
def PartStarts (o : Nat) (ps : List (List Instr)) (t : Nat) : Prop :=
  ∃ before after, ps = before ++ after ∧ t = o + codeSize before.flatten

section Rows

variable {J : Nat → Prop} {o t : Nat} {is js p : List Instr} {i : Instr} {ps : List (List Instr)}

lemma codeSize_flatten_cons (p : List Instr) (ps : List (List Instr)) :
    codeSize (p :: ps).flatten = codeSize p + codeSize ps.flatten := by
  rw [List.flatten_cons, codeSize_append]

/-- An instruction that counts on another one stands inside of a part. -/
lemma Row.stands (h : Row Γ J o ps) (there : StandsAt Γ.Counts o ps.flatten t) :
    o < t ∧ t < o + codeSize ps.flatten ∧ ¬ PartStarts o ps t := by
  induction ps generalizing o with
  | nil => exact there.elim
  | cons p ps ih =>
    rw [List.flatten_cons] at there
    have starts : PartStarts o (p :: ps) t → t = o ∨ PartStarts (o + codeSize p) ps t := by
      rintro ⟨before, after, split, rfl⟩
      cases before with
      | nil => exact .inl rfl
      | cons q before =>
        obtain ⟨rfl, rfl⟩ := List.cons.inj split
        exact .inr ⟨before, after, rfl, by rw [codeSize_flatten_cons, Nat.add_assoc]⟩
    rw [codeSize_flatten_cons]
    rcases standsAt_append.1 there with here | later
    · cases h.1 with
      | code orderly =>
        have place := orderly.stands here
        refine ⟨place.1, by omega, fun start => ?_⟩
        rcases starts start with rfl | ⟨before, after, -, rfl⟩ <;> omega
      | jump _ alone => exact (here.elim (fun known => alone known.1) id).elim
    · obtain ⟨lower, upper, inside⟩ := ih h.2 later
      refine ⟨by omega, by omega, fun start => ?_⟩
      rcases starts start with rfl | start
      · omega
      · exact inside start

/-- A jump leads to one of the places, or stays in a part. -/
lemma Row.jumps (h : Row Γ J o ps) (leads : JumpsTo o ps.flatten t) :
    J t ∨ o ≤ t ∧ t ≤ o + codeSize ps.flatten ∧ ¬ StandsAt Γ.Counts o ps.flatten t := by
  induction ps generalizing o with
  | nil => exact leads.elim
  | cons p ps ih =>
    rw [List.flatten_cons] at leads ⊢
    rw [codeSize_append, standsAt_append]
    rcases jumpsTo_append.1 leads with here | later
    · cases h.1 with
      | code orderly =>
        have place := orderly.jumps here
        refine .inr ⟨place.1, by omega, ?_⟩
        rintro (same | other)
        · exact orderly.apart here same
        · have := (h.2.stands other).1
          omega
      | jump leads' => exact .inl (leads' _ (here.elim id False.elim))
    · refine (ih h.2 later).imp_right fun ⟨lower, upper, apart⟩ => ⟨by omega, by omega, ?_⟩
      rintro (other | same)
      · cases h.1 with
        | code orderly =>
          have := orderly.stands other
          omega
        | jump _ alone => exact other.elim (fun known => alone known.1) id
      · exact apart same

/-- A part does not start with an instruction that counts on another one. -/
lemma Orderly.head (h : Orderly Γ is) : ∀ i ∈ is.head?, ¬ Γ.Counts i := by
  intro i there counts
  cases is with
  | nil => cases there
  | cons j is =>
    obtain rfl := Option.some.inj there
    exact absurd (h.stands (o := 0) (.inl ⟨counts, rfl⟩)).1 (Nat.lt_irrefl 0)

lemma Row.prepared (h : Row Γ J o ps) :
    (ps.flatten.IsChain fun i j => Γ.Counts j → Γ.Prepares i j) ∧ ∀ i ∈ ps.flatten.head?, ¬ Γ.Counts i := by
  induction ps generalizing o with
  | nil => exact ⟨.nil, nofun⟩
  | cons p ps ih =>
    obtain ⟨part, others⟩ := h
    obtain ⟨chain, head⟩ := ih others
    have own : (p.IsChain fun i j => Γ.Counts j → Γ.Prepares i j) ∧ ∀ i ∈ p.head?, ¬ Γ.Counts i := by
      cases part with
      | code orderly => exact ⟨orderly.prepared, orderly.head⟩
      | jump _ alone => exact ⟨.singleton _, fun j there => Option.some.inj there ▸ alone⟩
    rw [List.flatten_cons]
    refine ⟨List.isChain_append.2 ⟨own.1, chain, fun i _ j there counts => absurd counts (head j there)⟩,
      fun i there => ?_⟩
    cases p with
    | nil => exact head i there
    | cons j p => exact own.2 i there

lemma Row.spares (h : Row Γ J o ps) : ∀ i ∈ ps.flatten, Γ.Spares i := by
  induction ps generalizing o with
  | nil => exact nofun
  | cons p ps ih =>
    intro i there
    rcases List.mem_append.1 there with here | later
    · cases h.1 with
      | code orderly => exact orderly.spares i here
      | jump _ _ spares => exact List.mem_singleton.1 here ▸ spares
    · exact ih h.2 i later

/-- Where parts are put in a row, and jumps lead from one to the start of another, the whole is orderly. -/
theorem Orderly.row {l : List (List Instr)} (h : ∀ o, Row Γ (PartStarts o l) o l) : Orderly Γ l.flatten where
  jumps {o t} leads := by
    rcases (h o).jumps leads with ⟨before, after, rfl, rfl⟩ | ⟨lower, upper, -⟩
    · rw [List.flatten_append, codeSize_append]
      omega
    · exact ⟨lower, upper⟩
  stands {o _} there := ⟨((h o).stands there).1, ((h o).stands there).2.1⟩
  apart {o _} leads there := ((h o).jumps leads).elim ((h o).stands there).2.2 fun known => known.2.2 there
  prepared := (h 0).prepared.1
  spares := (h 0).spares

/-! ### Instructions -/

lemma Orderly.nil (Γ : Context) : Orderly Γ [] := ⟨nofun, nofun, nofun, .nil, nofun⟩

lemma Orderly.append (first : Orderly Γ is) (second : Orderly Γ js) : Orderly Γ (is ++ js) := by
  have whole := Orderly.row (l := [is, js]) fun _ => ⟨.code first, .code second, trivial⟩
  rwa [List.flatten_cons, List.flatten_singleton] at whole

lemma Orderly.two {j : Instr} (straight : ∀ next t, ¬ i.Leads next t) (straight' : ∀ next t, ¬ j.Leads next t)
    (alone : ¬ Γ.Counts i) (prepares : Γ.Counts j → Γ.Prepares i j) (spares : Γ.Spares i) (spares' : Γ.Spares j) :
    Orderly Γ [i, j] := by
  have nowhere : ∀ {o t}, ¬ JumpsTo o [i, j] t := by
    rintro o t (here | here | no)
    exacts [straight _ _ here, straight' _ _ here, no]
  refine ⟨fun leads => (nowhere leads).elim, fun {o t} there => ?_, fun leads => (nowhere leads).elim, ?_, ?_⟩
  · have size := i.size_pos
    have size' := j.size_pos
    rcases there with ⟨counts, -⟩ | ⟨-, rfl⟩ | no
    · exact absurd counts alone
    · rw [codeSize_cons, codeSize_cons, codeSize_nil]
      omega
    · exact no.elim
  · exact List.isChain_cons_cons.2 ⟨prepares, .singleton j⟩
  · exact List.forall_mem_cons.2 ⟨spares, List.forall_mem_cons.2 ⟨spares', List.forall_mem_nil _⟩⟩

lemma Orderly.one (straight : ∀ next t, ¬ i.Leads next t) (alone : ¬ Γ.Counts i) (spares : Γ.Spares i) :
    Orderly Γ [i] where
  jumps leads := (leads.elim (straight _ _) id).elim
  stands there := (there.elim (fun known => alone known.1) id).elim
  apart leads := (leads.elim (straight _ _) id).elim
  prepared := .singleton i
  spares := List.forall_mem_cons.2 ⟨spares, List.forall_mem_nil _⟩

lemma Orderly.easy (easy : ∀ i ∈ is, i.IsEasy) : Orderly Γ is := by
  induction is with
  | nil => exact .nil Γ
  | cons i is ih =>
    have first : Orderly Γ [i] := by
      have here := easy i List.mem_cons_self
      cases i with
      | setLocal | setUpvalue | closure | ret | method | jump | jumpIfFalse | loop => exact here.elim
      | _ => exact .one (fun _ _ => id) id trivial
    exact first.append (ih fun j there => easy j (List.mem_cons_of_mem _ there))

lemma Orderly.easy_one (easy : i.IsEasy) : Orderly Γ [i] :=
  .easy fun _ there => List.mem_singleton.1 there ▸ easy

end Rows

/-! ## Jumps -/

section Jumps

variable {is js : List Instr} {distance distance' : UInt16}

/-- A part that is skipped if the value on top is false. -/
lemma Orderly.skip (h : Orderly Γ is) (far : distance.toNat = codeSize is) :
    Orderly Γ (.jumpIfFalse distance :: is) := by
  have whole := Orderly.row (l := [[.jumpIfFalse distance], is]) fun o => ⟨.jump ?_ id trivial, .code h, trivial⟩
  · rwa [List.flatten_cons, List.flatten_singleton] at whole
  · rintro t rfl
    refine ⟨[[.jumpIfFalse distance], is], [], rfl, ?_⟩
    rw [codeSize_flatten_cons, List.flatten_singleton, far, ← Nat.add_assoc]
    rfl

/-- One of two parts, the second one if the value on top is false. -/
lemma Orderly.branch (h : Orderly Γ is) (h' : Orderly Γ js) (far : distance.toNat = codeSize is + 3)
    (far' : distance'.toNat = codeSize js) :
    Orderly Γ (.jumpIfFalse distance :: (is ++ .jump distance' :: js)) := by
  have whole := Orderly.row (l := [[.jumpIfFalse distance], is, [.jump distance'], js]) fun o =>
    ⟨.jump ?_ id trivial, .code h, .jump ?_ id trivial, .code h', trivial⟩
  · simpa using whole
  · rintro t rfl
    refine ⟨[[.jumpIfFalse distance], is, [.jump distance']], [js], rfl, ?_⟩
    simp only [codeSize_flatten_cons, List.flatten_nil, codeSize_cons, codeSize_nil, Instr.size, far]
    omega
  · rintro t rfl
    refine ⟨[[.jumpIfFalse distance], is, [.jump distance'], js], [], rfl, ?_⟩
    simp only [codeSize_flatten_cons, List.flatten_nil, codeSize_cons, codeSize_nil, Instr.size, far']
    omega

lemma jump_leads {n next t : Nat} (leads : (Instr.jump (UInt16.ofNat n)).Leads next t) (fits : n ≤ maxDistance) :
    t = next + n := by
  have leads : t = next + UInt16.toNat _ := leads
  rwa [distance_toNat fits] at leads

lemma loop_leads {n next t : Nat} (leads : (Instr.loop (UInt16.ofNat n)).Leads next t) (fits : n ≤ maxDistance) :
    t + n = next := by
  have leads : t + UInt16.toNat _ = next := leads
  rwa [distance_toNat fits] at leads

/-- A loop, with its condition, its increment and its body. -/
lemma Orderly.loop {c step : Option (List Instr)} {items : List Item} (cond : ∀ is ∈ c, Orderly Γ is)
    (advance : ∀ is ∈ step, Orderly Γ is) (inner : Orderly Γ (instrs items))
    (fits : LoopFits c step (itemsSize items)) : Orderly Γ (instrs (loopItems L c step items)) := by
  obtain ⟨exit, increment, back⟩ := fits
  have code : instrs (loopItems L c step items) = conditionCode step (itemsSize items) c ++
      (incrementCode c step ++ (instrs items ++ (.loop (UInt16.ofNat (backDistance c step (itemsSize items))) ::
        exitCode c))) := by
    simp only [loopItems, instrs_append, instrs_under, List.append_assoc]
  rw [code]
  have pop : Orderly Γ [.pop] := .easy_one trivial
  unfold itemsSize at *
  generalize instrs items = body at *
  let turn : Instr := .loop (UInt16.ofNat (backDistance c step (codeSize body)))
  -- the four loops differ in what their parts are, and so in where their jumps lead
  rcases c with _ | test <;> rcases step with _ | next
  · have whole := Orderly.row (l := [body, [turn]]) fun o =>
      ⟨.code inner, .jump (fun t leads => ⟨[], _, rfl, ?_⟩) id trivial, trivial⟩
    · simpa only [conditionCode, incrementCode, exitCode, List.flatten_cons, List.flatten_nil, List.append_nil,
        List.append_assoc, List.cons_append, List.nil_append] using whole
    · have leads := loop_leads leads back
      simp only [turn, backDistance, conditionSize, Instr.size, codeSize_nil, List.flatten_nil] at leads ⊢
      omega
  · have again := increment _ rfl
    let enter : Instr := .jump (UInt16.ofNat (codeSize next + 4))
    let retry : Instr := .loop (UInt16.ofNat (conditionSize none + codeSize next + 7))
    have whole := Orderly.row (l := [[enter], next, [.pop], [retry], body, [turn]]) fun o =>
      ⟨.jump (fun t leads => ⟨[[enter], next, [.pop], [retry]], _, rfl, ?_⟩) id trivial,
        .code (advance _ rfl), .code pop, .jump (fun t leads => ⟨[], _, rfl, ?_⟩) id trivial,
        .code inner, .jump (fun t leads => ⟨[[enter]], _, rfl, ?_⟩) id trivial, trivial⟩
    · simpa only [conditionCode, incrementCode, exitCode, List.flatten_cons, List.flatten_nil, List.append_nil,
        List.append_assoc, List.cons_append, List.nil_append] using whole
    · have leads := jump_leads leads (by omega)
      simp only [enter, retry, Instr.size, codeSize_flatten_cons, codeSize_cons, codeSize_nil,
        List.flatten_nil] at leads ⊢
      omega
    · have leads := loop_leads leads again
      simp only [enter, retry, conditionSize, Instr.size, codeSize_cons, codeSize_nil, List.flatten_nil] at leads ⊢
      omega
    · have leads := loop_leads leads back
      simp only [turn, enter, retry, backDistance, Instr.size, codeSize_flatten_cons, codeSize_cons, codeSize_nil,
        List.flatten_nil] at leads ⊢
      omega
  · let leave : Instr := .jumpIfFalse (UInt16.ofNat (1 + incrementSize none + codeSize body + 3))
    have whole := Orderly.row (l := [test, [leave], [.pop], body, [turn], [.pop]]) fun o =>
      ⟨.code (cond _ rfl), .jump (fun t leads => ⟨[test, [leave], [.pop], body, [turn]], _, rfl, ?_⟩) id trivial,
        .code pop, .code inner, .jump (fun t leads => ⟨[], _, rfl, ?_⟩) id trivial, .code pop, trivial⟩
    · simpa only [conditionCode, incrementCode, exitCode, List.flatten_cons, List.flatten_nil, List.append_nil,
        List.append_assoc, List.cons_append, List.nil_append] using whole
    · have leads := jump_leads leads (exit rfl)
      simp only [leave, turn, incrementSize, Instr.size, codeSize_flatten_cons, codeSize_cons, codeSize_nil,
        List.flatten_nil] at leads ⊢
      omega
    · have leads := loop_leads leads back
      simp only [turn, leave, backDistance, conditionSize, Instr.size, codeSize_cons, codeSize_nil,
        List.flatten_nil] at leads ⊢
      omega
  · have again := increment _ rfl
    let leave : Instr := .jumpIfFalse (UInt16.ofNat (1 + incrementSize (some next) + codeSize body + 3))
    let enter : Instr := .jump (UInt16.ofNat (codeSize next + 4))
    let retry : Instr := .loop (UInt16.ofNat (conditionSize (some test) + codeSize next + 7))
    have whole := Orderly.row
      (l := [test, [leave], [.pop], [enter], next, [.pop], [retry], body, [turn], [.pop]]) fun o =>
      ⟨.code (cond _ rfl),
        .jump (fun t leads =>
          ⟨[test, [leave], [.pop], [enter], next, [.pop], [retry], body, [turn]], _, rfl, ?_⟩) id trivial,
        .code pop,
        .jump (fun t leads => ⟨[test, [leave], [.pop], [enter], next, [.pop], [retry]], _, rfl, ?_⟩) id trivial,
        .code (advance _ rfl), .code pop, .jump (fun t leads => ⟨[], _, rfl, ?_⟩) id trivial, .code inner,
        .jump (fun t leads => ⟨[test, [leave], [.pop], [enter]], _, rfl, ?_⟩) id trivial, .code pop, trivial⟩
    · simpa only [conditionCode, incrementCode, exitCode, List.flatten_cons, List.flatten_nil, List.append_nil,
        List.append_assoc, List.cons_append, List.nil_append] using whole
    · have leads := jump_leads leads (exit rfl)
      simp only [leave, turn, enter, retry, incrementSize, Instr.size, codeSize_flatten_cons, codeSize_cons,
        codeSize_nil, List.flatten_nil] at leads ⊢
      omega
    · have leads := jump_leads leads (by omega)
      simp only [leave, enter, retry, Instr.size, codeSize_flatten_cons, codeSize_cons, codeSize_nil,
        List.flatten_nil] at leads ⊢
      omega
    · have leads := loop_leads leads again
      simp only [leave, enter, retry, conditionSize, Instr.size, codeSize_cons, codeSize_nil,
        List.flatten_nil] at leads ⊢
      omega
    · have leads := loop_leads leads back
      simp only [turn, leave, enter, retry, backDistance, Instr.size, codeSize_flatten_cons, codeSize_cons,
        codeSize_nil, List.flatten_nil] at leads ⊢
      omega

end Jumps

/-! ## Locals -/

section Locals

variable {L' : List Local} {x : String} {place : Access}

lemma Rooted.cons (h : Rooted L) (v : Local) : Rooted (v :: L) := by
  obtain ⟨above, zero, rfl, unnamed⟩ := h
  exact ⟨v :: above, zero, rfl, unnamed⟩

lemma Rooted.binds {top : Bool} {define : List Instr} (h : Rooted L) (binds : Binds Γ L x top define L') :
    Rooted L' := by
  cases binds with
  | global => exact h
  | slot => exact h.cons _

/-- In slot zero there is no variable that a program can name. -/
lemma Rooted.zero (h : Rooted L) {v : Local} (found : findLocal? x L = some (0, v)) : ¬ ProperName x := by
  obtain ⟨above, zero, rfl, unnamed⟩ := h
  have there := findLocal?_fromBottom found
  rw [fromBottom?, List.reverse_append, List.reverse_singleton, List.singleton_append] at there
  obtain rfl := Option.some.inj there
  rwa [← findLocal?_named found]

lemma slot_ne_zero {slot : Nat} (fits : slot < maxOperands) (positive : slot ≠ 0) : UInt8.ofNat slot ≠ 0 := by
  intro zero
  have same := congrArg UInt8.toNat zero
  rw [UInt8.toNat_ofNat_of_lt' fits] at same
  exact positive same

lemma write_orderly (leads : Resolves Γ L x place) (proper : ProperName x) (rooted : Rooted L) :
    Orderly Γ [place.write] := by
  cases leads with
  | @slot slot v found fits =>
    refine .one (fun _ _ => id) id (slot_ne_zero fits fun zero => ?_)
    subst zero
    exact rooted.zero found proper
  | captured _ chain => exact .one (fun _ _ => id) id ⟨x, proper, chain⟩
  | globalName => exact .easy_one trivial

lemma read_easy (place : Access) : place.read.IsEasy := by cases place <;> trivial

end Locals

end Compile

namespace Syntax

open Compile

variable {Γ Γ' : Context} {L L' : List Local} {items : List Item} {x : String} {place : Access}

/-! ## Expressions -/

lemma literal_easy {kind : TokenKind} {i : Instr} (word : leading? kind = some (.literal i)) : i.IsEasy := by
  cases kind <;> cases word <;> trivial

lemma unary_easy {op : TokenKind} {i : Instr} (word : leading? op = some (.unary i)) : i.IsEasy := by
  cases op <;> cases word <;> trivial

lemma binary_easy {op : TokenKind} {p : Precedence} {is : List Instr}
    (word : trailing? op = some (p, .binary is)) : ∀ i ∈ is, i.IsEasy := by
  cases op <;> cases word <;>
    repeat' first | exact List.forall_mem_nil _ | refine List.forall_mem_cons.2 ⟨trivial, ?_⟩

/-- The code of an expression is orderly. -/
theorem Expr.Emits.orderly {s : ExprSort} {e : Expr s} {code : List Instr} (h : e.Emits Γ L code)
    (proper : e.Proper) (rooted : Rooted L) : Orderly Γ code := by
  induction h with
  | number | string => exact .easy_one trivial
  | literal word => exact .easy_one (literal_easy word)
  | name | this => exact .easy_one (read_easy _)
  | assign _ leads ih => exact (ih proper.2).append (write_orderly leads proper.1 rooted)
  | @superGet m index receiver home =>
    exact .easy (List.forall_mem_cons.2 ⟨read_easy _, List.forall_mem_cons.2 ⟨read_easy _,
      List.forall_mem_cons.2 ⟨trivial, List.forall_mem_nil _⟩⟩⟩)
  | @superCall m args index receiver home code _ _ _ _ _ _ ih =>
    have receiver_ : Orderly Γ [receiver.read] := .easy_one (read_easy _)
    have looks : Orderly Γ [home.read, .superInvoke index (UInt8.ofNat args.count)] :=
      .easy (List.forall_mem_cons.2 ⟨read_easy _, List.forall_mem_cons.2 ⟨trivial, List.forall_mem_nil _⟩⟩)
    exact receiver_.append ((ih proper).append looks)
  | grouping _ ih => exact ih proper
  | unary word _ ih => exact (ih proper).append (.easy_one (unary_easy word))
  | binary word _ _ ih ih' => exact (ih proper.1).append ((ih' proper.2).append (.easy (binary_easy word)))
  | @and l left r right _ _ fits ih ih' =>
    have dropped : Orderly Γ (.pop :: right) := Orderly.append (.easy_one (i := .pop) trivial) (ih' proper.2)
    refine (ih proper.1).append (dropped.skip ?_)
    rw [distance_toNat fits, codeSize_cons, Instr.size, Nat.add_comm]
  | @or l left r right _ _ fits ih ih' =>
    have dropped : Orderly Γ (.pop :: right) := Orderly.append (.easy_one (i := .pop) trivial) (ih' proper.2)
    refine (ih proper.1).append (Orderly.branch (.nil Γ) dropped rfl ?_)
    rw [distance_toNat fits, codeSize_cons, Instr.size, Nat.add_comm]
  | call _ _ _ ih ih' | set _ _ _ ih ih' | invoke _ _ _ _ ih ih' =>
    exact (ih proper.1).append ((ih' proper.2).append (.easy_one trivial))
  | get _ _ ih => exact (ih proper).append (.easy_one trivial)
  | noArguments => exact .nil Γ
  | someArguments _ ih | lastArgument _ ih => exact ih proper
  | argument _ _ ih ih' => exact (ih proper.1).append (ih' proper.2)

lemma clause_orderly {c : Option (Expr .expression)} {code : Option (List Instr)}
    (h : ClauseEmits Γ L c code) (proper : ClauseProper c) (rooted : Rooted L) : ∀ is ∈ code, Orderly Γ is := by
  intro is there
  cases h with
  | none => cases there
  | some inner =>
    obtain rfl := Option.some.inj there
    exact inner.orderly (proper _ rfl) rooted

lemma value_orderly {value : Option (Expr .expression)} {code : List Instr} (h : ValueEmits Γ L value code)
    (proper : ClauseProper value) (rooted : Rooted L) : Orderly Γ code := by
  cases h with
  | none => exact .easy_one trivial
  | some inner => exact inner.orderly (proper _ rfl) rooted

lemma initializer_orderly {first : Initializer} {code : List Instr} (h : Initializer.Emits Γ L first code)
    (proper : first.Proper) (rooted : Rooted L) : Orderly Γ code := by
  cases h with
  | none => exact .nil Γ
  | expression inner => exact (inner.orderly proper rooted).append (.easy_one trivial)

/-! ## Statements -/

lemma binds_orderly {top : Bool} {define : List Instr} (h : Binds Γ L x top define L') : Orderly Γ define := by
  cases h with
  | global => exact .easy_one trivial
  | slot => exact .nil Γ

lemma exits_orderly (inner : List Local) : Orderly Γ (exits inner) := by
  refine .easy fun i there => ?_
  obtain ⟨v, -, rfl⟩ := List.mem_map.1 there
  split <;> trivial

lemma return_orderly (other : Γ.kind ≠ .initializer) : Orderly Γ [.ret] :=
  .one (fun _ _ => id) other trivial

/-- An initializer fetches slot zero before it returns. -/
lemma returns_orderly (Γ : Context) : Orderly Γ (returnCode Γ.kind) := by
  by_cases initializer : Γ.kind = .initializer
  · rw [initializer]
    exact .two (fun _ _ => id) (fun _ _ => id) id (fun _ => rfl) trivial trivial
  · have code : returnCode Γ.kind = [.pushNil] ++ [.ret] := by
      cases kind : Γ.kind with
      | initializer => exact absurd kind initializer
      | _ => rfl
    rw [code]
    exact Orderly.append (.easy_one trivial) (return_orderly initializer)

lemma conditional_orderly {cond body others : List Instr} {n m : Nat} (condition : Orderly Γ cond)
    (branch : Orderly Γ body) (otherwise : Orderly Γ others) (far : n = codeSize body + 4)
    (far' : m = codeSize others + 1) (fits : n ≤ maxDistance) (fits' : m ≤ maxDistance) :
    Orderly Γ ((cond ++ [.jumpIfFalse (UInt16.ofNat n), .pop]) ++
      (body ++ ([.jump (UInt16.ofNat m), .pop] ++ others))) := by
  have drop : Orderly Γ [.pop] := .easy_one trivial
  rw [List.append_assoc]
  refine condition.append (Orderly.branch (drop.append branch) (drop.append otherwise) ?_ ?_)
  · rw [distance_toNat fits, far, codeSize_append]
    show codeSize body + 4 = 1 + codeSize body + 3
    omega
  · rw [distance_toNat fits', far']
    exact Nat.add_comm _ _

/-- The copy of a loop variable is written back to its place, which is above slot zero. -/
lemma copy_orderly {v w : Local} {body : List Item} (inner : Orderly Γ (instrs body)) (rooted : Rooted L)
    (fits : L.length < maxOperands) : Orderly Γ (instrs (copyItems (v :: L) L.length w body)) := by
  have positive : L.length ≠ 0 := by
    obtain ⟨above, zero, rfl, -⟩ := rooted
    rw [List.length_append, List.length_singleton]
    exact Nat.succ_ne_zero _
  have reads : Orderly Γ [.getLocal (UInt8.ofNat L.length)] := .easy_one trivial
  have writes : Orderly Γ [.setLocal (UInt8.ofNat L.length)] :=
    .one (fun _ _ => id) id (slot_ne_zero fits positive)
  have again : Orderly Γ [.getLocal (UInt8.ofNat (v :: L).length)] := .easy_one trivial
  have drop : Orderly Γ [.pop] := .easy_one trivial
  simp only [copyItems, instrs_append, instrs_under]
  exact reads.append (inner.append ((again.append (writes.append drop)).append (exits_orderly [w])))

/-- The closure of a function that is compiled where these locals are in scope. -/
lemma closure_orderly {index : UInt8} (makes : MakesClosure Γ L (.closure index Γ'.captures.toList))
    (rooted : Rooted L) : Orderly Γ [.closure index Γ'.captures.toList] :=
  .one (fun _ _ => id) id ⟨L, rooted, makes⟩

/-- The code of a statement is orderly, and slot zero keeps its name. -/
theorem Stmt.Emits.orderly {top : Bool} {s : StmtSort} {t : Stmt s} (h : t.Emits Γ top L items L')
    (proper : t.Proper) (rooted : Rooted L) : Orderly Γ (instrs items) ∧ Rooted L' := by
  induction h with
  | print inner | expression inner =>
    rw [instrs_framed, instrs_under]
    exact ⟨(inner.orderly proper rooted).append (.easy_one trivial), rooted⟩
  | retNone =>
    rw [instrs_framed, instrs_under]
    exact ⟨returns_orderly _, rooted⟩
  | retSome _ plain inner =>
    rw [instrs_framed, instrs_under]
    exact ⟨(inner.orderly (proper _ rfl) rooted).append (return_orderly plain), rooted⟩
  | ifThen condition _ thenFits ih =>
    have none := conditional_orderly (condition.orderly proper.1 rooted) (ih proper.2 rooted).1 (.nil _) rfl rfl
      thenFits (by decide)
    simp only [instrs_framed, instrs_append, instrs_under]
    rw [List.append_nil] at none
    exact ⟨none, rooted⟩
  | ifElse condition _ _ thenFits elseFits ih ih' =>
    simp only [instrs_framed, instrs_append, instrs_under]
    exact ⟨conditional_orderly (condition.orderly proper.1 rooted) (ih proper.2.1 rooted).1
      (ih' proper.2.2 rooted).1 rfl rfl thenFits elseFits, rooted⟩
  | whileLoop condition _ fits ih =>
    rw [instrs_framed]
    refine ⟨Orderly.loop ?_ nofun (ih proper.2 rooted).1 fits, rooted⟩
    rintro is ⟨⟩
    exact condition.orderly proper.1 rooted
  | forLoop clause condition advance _ fits ih =>
    obtain ⟨first, second, third, body⟩ := proper
    rw [instrs_framed, instrs_append, instrs_under]
    exact ⟨(initializer_orderly clause first rooted).append (Orderly.loop (clause_orderly condition second rooted)
      (clause_orderly advance third rooted) (ih body rooted).1 fits), rooted⟩
  | @forVar Γ top L x value start v _ _ _ _ w _ _ clause _ _ condition advance _ localsFit fits ih =>
    obtain ⟨⟨-, first⟩, second, third, body⟩ := proper
    have declared := rooted.cons v
    have turn := copy_orderly (v := v) (w := w) (ih body (declared.cons w)).1 rooted (by omega)
    rw [instrs_framed, instrs_append, instrs_append, instrs_under, instrs_under]
    exact ⟨(value_orderly clause first rooted).append ((Orderly.loop (clause_orderly condition second declared)
      (clause_orderly advance third declared) turn fits).append (exits_orderly [v])), rooted⟩
  | block _ ih =>
    rw [instrs_framed, instrs_append, instrs_under]
    exact ⟨(ih proper rooted).1.append (exits_orderly _), rooted⟩
  | statement _ ih => exact ih proper rooted
  | var inner binds =>
    rw [instrs_framed, instrs_under]
    exact ⟨(value_orderly inner proper.2 rooted).append (binds_orderly binds), rooted.binds binds⟩
  | @function Γ top L x params body define L' Γ' start items stop index p binds inside entry inner constant
      assembles =>
    obtain ⟨-, params_, body_⟩ := proper
    have kind := inside.kind
    have compiled := Compiled.function (by rw [kind]; exact fun same => by cases same)
      (kind.symm ▸ entry) params_ inner body_ assembles
    have made := closure_orderly (MakesClosure.intro inside constant compiled) (rooted.binds binds)
    rw [instrs_framed, instrs_under]
    exact ⟨made.append (binds_orderly binds), rooted.binds binds⟩
  | @cls Γ top L x ms index define L' place items _ binds _ _ ih =>
    have made : Orderly Γ [.makeClass index] := .easy_one trivial
    have fetched : Orderly Γ [place.read] := .easy_one (read_easy _)
    have drop : Orderly Γ [.pop] := .easy_one trivial
    simp only [instrs_framed, instrs_append, instrs_under]
    exact ⟨(made.append (binds_orderly binds)).append (fetched.append
      ((ih proper.2.2 (rooted.binds binds)).1.append drop)), rooted.binds binds⟩
  | @subclass Γ top L x y ms index define L' parent hidden place again items _ binds _ _ _ _ _ _ _ ih =>
    have made : Orderly Γ [.makeClass index] := .easy_one trivial
    have fetched : Orderly Γ [parent.read] := .easy_one (read_easy _)
    have inherits : Orderly Γ [place.read, .inherit, again.read] :=
      .easy (List.forall_mem_cons.2 ⟨read_easy _, List.forall_mem_cons.2 ⟨trivial,
        List.forall_mem_cons.2 ⟨read_easy _, List.forall_mem_nil _⟩⟩⟩)
    have drop : Orderly Γ [.pop] := .easy_one trivial
    simp only [instrs_framed, instrs_append, instrs_under]
    exact ⟨(made.append (binds_orderly binds)).append (fetched.append (inherits.append
      ((ih proper.2.2 ((rooted.binds binds).cons hidden)).1.append (drop.append (exits_orderly [hidden]))))),
      rooted.binds binds⟩
  | noDeclarations | noMethods => exact ⟨.nil _, rooted⟩
  | declare _ _ ih ih' =>
    obtain ⟨here, rooted'⟩ := ih proper.1 rooted
    obtain ⟨others, rooted''⟩ := ih' proper.2 rooted'
    rw [instrs_append]
    exact ⟨here.append others, rooted''⟩
  | @method Γ top L x params body ms Γ' start items stop index name p others constant inside entry inner
      entryConstant assembles _ _ ih' =>
    obtain ⟨params_, body_, methods⟩ := proper
    have kind := inside.kind
    have compiled := Compiled.function
      (by rw [kind, methodKind]; split <;> exact fun same => by cases same)
      (kind.symm ▸ entry) params_ inner body_ assembles
    have made : Orderly Γ [.closure index Γ'.captures.toList, .method name] :=
      .two (fun _ _ => id) (fun _ _ => id) id
        (fun _ => ⟨x, index, _, p, Γ', start, _, constant, rfl, entryConstant, compiled, kind⟩)
        ⟨L, rooted, .intro inside entryConstant compiled⟩ trivial
    rw [instrs_append, instrs_under]
    exact ⟨made.append (ih' methods rooted).1, rooted⟩

end Syntax

namespace Compile

open Syntax

variable {Γ : Context} {p : Prototype} {start : List Local} {items : List Item}

/-! ## Functions -/

/-- A program cannot name slot zero of a function. -/
lemma Compiled.rooted (h : Compiled p Γ start items) : Rooted start := by
  cases h with
  | script _ _ named => exact ⟨[], _, rfl, fun proper => proper.1 named⟩
  | function _ entry =>
    have unnamed : ¬ ProperName Γ.kind.slotZero := by
      cases Γ.kind <;> simp [ProperName, BodyKind.slotZero]
    have reversed := congrArg List.reverse entry
    rw [namesOf, List.reverse_append, List.reverse_singleton, List.singleton_append, ← List.map_reverse] at reversed
    obtain ⟨zero, others, split, named, -⟩ := List.map_eq_cons_iff.1 reversed
    refine ⟨others.reverse, zero, ?_, ?_⟩
    · rw [← List.reverse_reverse start, split, List.reverse_cons]
    · rwa [named]

/-- The code of a function is orderly. -/
theorem Compiled.orderly (h : Compiled p Γ start items) : Orderly Γ (Lox.instrs items) := by
  have rooted := h.rooted
  cases h with
  | script _ _ _ emits proper | function _ _ _ emits proper =>
    rw [instrs_append, instrs_under]
    exact (emits.orderly proper rooted).1.append (returns_orderly Γ)

/-! ## Control flow -/

variable {i j : Instr} {o o' k k' : Nat}

/-- Rows that agree up to places of the same offset are the same up to there. -/
lemma before_unique {before before' after after' : List Instr} (same : before ++ after = before' ++ after')
    (size : codeSize before = codeSize before') : before = before' := by
  induction before generalizing before' with
  | nil =>
    cases before' with
    | nil => rfl
    | cons j before' =>
      have positive := j.size_pos
      rw [codeSize_nil, codeSize_cons] at size
      omega
  | cons i before ih =>
    cases before' with
    | nil =>
      have positive := i.size_pos
      rw [codeSize_nil, codeSize_cons] at size
      omega
    | cons j before' =>
      obtain ⟨rfl, rest⟩ := List.cons.inj same
      rw [codeSize_cons, codeSize_cons] at size
      rw [ih rest (Nat.add_left_cancel size)]

/-- An instruction that control flow comes to is one of the code. -/
lemma Compiled.place (h : Compiled p Γ start items) (reaches : Reaches p o k)
    (decoded : p.chunk.instrAt? o = some i) :
    ∃ before after, Lox.instrs items = before ++ i :: after ∧ o = codeSize before := by
  obtain ⟨before, i', scope, after, rfl, rfl, decoded'⟩ := h.disciplined.stays reaches
  obtain rfl := Option.some.inj (decoded.symm.trans decoded')
  exact ⟨Lox.instrs before, Lox.instrs after, instrs_append _ _, rfl⟩

/-- To an instruction that counts on the one before it control flow comes from there only. -/
lemma Compiled.follows (h : Compiled p Γ start items) (reaches : Reaches p o k)
    (decoded : p.chunk.instrAt? o = some i) (reaches' : Reaches p o' k') (decoded' : p.chunk.instrAt? o' = some j)
    (goes : o' = o + i.size ∨ i.Leads (o + i.size) o') (counts : Γ.Counts j) : Γ.Prepares i j := by
  have orderly := h.orderly
  obtain ⟨before, after, split, rfl⟩ := h.place reaches decoded
  obtain ⟨before', after', split', rfl⟩ := h.place reaches' decoded'
  rcases goes with next | leads
  · have same : before ++ [i] = before' := by
      refine @before_unique _ _ after (j :: after') ?_ ?_
      · rw [List.append_assoc, ← split', split]
        rfl
      · rw [next, codeSize_append, codeSize_cons, codeSize_nil, Nat.add_zero]
    have chain := orderly.prepared
    rw [split', ← same, List.append_assoc] at chain
    exact (List.isChain_split.1 chain).2.rel counts
  · have jumps : JumpsTo 0 (Lox.instrs items) (codeSize before') := by
      rw [split]
      exact .intro (by rwa [Nat.zero_add])
    have stands : StandsAt Γ.Counts 0 (Lox.instrs items) (codeSize before') := by
      rw [split', ← Nat.zero_add (codeSize before')]
      exact .intro counts
    exact absurd stands (orderly.apart jumps)

/-- No function starts with an instruction that counts on another one. -/
lemma Compiled.starts (h : Compiled p Γ start items) (reaches : Reaches p 0 k)
    (decoded : p.chunk.instrAt? 0 = some i) : ¬ Γ.Counts i := by
  obtain ⟨before, after, split, size⟩ := h.place reaches decoded
  cases before with
  | nil => exact h.orderly.head i (by rw [split]; rfl)
  | cons j before =>
    have positive := j.size_pos
    rw [codeSize_cons] at size
    omega

lemma Compiled.spares (h : Compiled p Γ start items) (reaches : Reaches p o k)
    (decoded : p.chunk.instrAt? o = some i) : Γ.Spares i := by
  obtain ⟨before, after, split, -⟩ := h.place reaches decoded
  exact h.orderly.spares i (split ▸ List.mem_append_right _ List.mem_cons_self)

end Compile

end Lox
