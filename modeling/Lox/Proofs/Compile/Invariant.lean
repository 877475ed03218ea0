import Lox.Proofs.Compile.Emission
import Lox.Proofs.Compile.Quiet
import Lox.Proofs.Syntax.Scanning
import Mathlib.Data.List.Forall2

/-!
# The invariant of a compilation

`State.Sound` is what holds of every state of a quiet compilation, and `Progress s s' code k` is
what a phrase does to it: the instructions `code` are added, `k` variables are declared in the
innermost scope, pools and captures only grow, and variables that were there before at most get
marked as captured.

The code of a phrase refers to what its function has in the end, of which the state after the
phrase is only the beginning.  `Future s Γ L` says that a context and locals are ones that `s` may
still grow into; a state has the futures of all states after it (`Progress.future`), so the code of
a phrase can be described for any future of the state after it.
-/

namespace Lox

namespace Compile

open Syntax

/-! ## Related lists -/

lemma forall₂_left {α β : Type} {R : α → β → Prop} {l : List α} {l' : List β}
    (h : List.Forall₂ R l l') {b : β} (there : b ∈ l') : ∃ a ∈ l, R a b := by
  induction h with
  | nil => exact absurd there List.not_mem_nil
  | @cons x y l l' first _ ih =>
    rcases List.mem_cons.1 there with rfl | there
    · exact ⟨x, List.mem_cons_self, first⟩
    · obtain ⟨a, old, related⟩ := ih there
      exact ⟨a, List.mem_cons_of_mem _ old, related⟩

lemma forall₂_right {α β : Type} {R : α → β → Prop} {l : List α} {l' : List β}
    (h : List.Forall₂ R l l') {a : α} (there : a ∈ l) : ∃ b ∈ l', R a b := by
  obtain ⟨b, new, related⟩ := forall₂_left (List.Forall₂.flip h) there
  exact ⟨b, new, related⟩

/-! ## Growing scopes -/

/-- The same variable later on: it may have been captured meanwhile. -/
structure Local.Grows (v w : Local) : Prop where
  name : w.name = v.name
  depth : w.depth = v.depth
  marked : v.isCaptured = true → w.isCaptured = true

lemma Local.Grows.refl (v : Local) : v.Grows v := ⟨rfl, rfl, id⟩

lemma Local.Grows.trans {u v w : Local} (h : u.Grows v) (h' : v.Grows w) : u.Grows w :=
  ⟨h'.name.trans h.name, h'.depth.trans h.depth, h'.marked ∘ h.marked⟩

/-- The same variables later on. -/
abbrev LocalsGrow : List Local → List Local → Prop := List.Forall₂ Local.Grows

lemma LocalsGrow.refl (L : List Local) : LocalsGrow L L :=
  List.forall₂_same.2 fun v _ => Local.Grows.refl v

lemma LocalsGrow.trans {L₁ L₂ L₃ : List Local} (h : LocalsGrow L₁ L₂) (h' : LocalsGrow L₂ L₃) :
    LocalsGrow L₁ L₃ := by
  induction h generalizing L₃ with
  | nil => exact h'
  | cons first _ ih =>
    cases h' with
    | cons first' others' => exact List.Forall₂.cons (first.trans first') (ih others')

lemma LocalsGrow.depths {L L' : List Local} (h : LocalsGrow L L') :
    L'.map (·.depth) = L.map (·.depth) := by
  induction h with
  | nil => rfl
  | cons first _ ih => rw [List.map_cons, List.map_cons, first.depth, ih]

lemma LocalsGrow.names {L L' : List Local} (h : LocalsGrow L L') : namesOf L' = namesOf L := by
  induction h with
  | nil => rfl
  | cons first _ ih =>
    have ih : namesOf _ = namesOf _ := ih
    rw [namesOf, List.map_cons, first.name]
    exact congrArg (_ :: ·) ih

lemma LocalsGrow.drop {L L' : List Local} (h : LocalsGrow L L') (k : Nat) :
    LocalsGrow (L.drop k) (L'.drop k) :=
  List.forall₂_drop k h

lemma LocalsGrow.take {L L' : List Local} (h : LocalsGrow L L') (k : Nat) :
    LocalsGrow (L.take k) (L'.take k) :=
  List.forall₂_take k h

/-- A variable stays where it is. -/
lemma LocalsGrow.find {L L' : List Local} (h : LocalsGrow L L') {x : String} {slot : Nat}
    {v : Local} (found : findLocal? x L = some (slot, v)) :
    ∃ w, findLocal? x L' = some (slot, w) ∧ v.Grows w := by
  induction h with
  | nil => simp only [findLocal?, reduceCtorEq] at found
  | @cons a b L L' first others ih =>
    rw [findLocal?] at found ⊢
    rw [first.name]
    split at found
    · next named =>
      obtain ⟨rfl, rfl⟩ := Prod.mk.inj (Option.some.inj found)
      refine ⟨b, ?_, first⟩
      rw [if_pos named, others.length_eq]
    · next named =>
      rw [if_neg named]
      exact ih found

lemma LocalsGrow.find_none {L L' : List Local} (h : LocalsGrow L L') (x : String) :
    findLocal? x L' = none ↔ findLocal? x L = none := by
  induction h with
  | nil => rfl
  | cons first _ ih =>
    simp only [findLocal?, first.name]
    split
    · simp only [reduceCtorEq]
    · exact ih

/-- What inner functions see of a body. -/
def Body.scope (b : Body) : Scope := ⟨b.locals, b.captures⟩

/-- The same scope later on. -/
structure Scope.Grows (σ τ : Scope) : Prop where
  locals : LocalsGrow σ.locals τ.locals
  captures : σ.captures.toList <+: τ.captures.toList

lemma Scope.Grows.refl (σ : Scope) : σ.Grows σ := ⟨.refl _, List.prefix_refl _⟩

lemma Scope.Grows.trans {σ τ υ : Scope} (h : σ.Grows τ) (h' : τ.Grows υ) : σ.Grows υ :=
  ⟨h.locals.trans h'.locals, h.captures.trans h'.captures⟩

/-- The same scopes later on. -/
abbrev ScopesGrow : List Scope → List Scope → Prop := List.Forall₂ Scope.Grows

lemma ScopesGrow.refl (around : List Scope) : ScopesGrow around around :=
  List.forall₂_same.2 fun σ _ => Scope.Grows.refl σ

lemma ScopesGrow.trans {A B C : List Scope} (h : ScopesGrow A B) (h' : ScopesGrow B C) :
    ScopesGrow A C := by
  induction h generalizing C with
  | nil => exact h'
  | cons first _ ih =>
    cases h' with
    | cons first' others' => exact List.Forall₂.cons (first.trans first') (ih others')

lemma getElem?_grow {α : Type} {a b : Array α} (h : a.toList <+: b.toList) {i : Nat} {x : α}
    (found : a[i]? = some x) : b[i]? = some x := by
  obtain ⟨more, eq⟩ := h
  rw [← Array.getElem?_toList] at found ⊢
  rw [← eq, List.getElem?_append_left (List.getElem?_eq_some_iff.1 found).1]
  exact found

/-- A capture stays what it is. -/
lemma CapturedAs.grow {x : String} {captures captures' : Array Capture} {around around' : List Scope}
    {index : UInt8} (h : CapturedAs x captures around index)
    (more : captures.toList <+: captures'.toList) (later : ScopesGrow around around') :
    CapturedAs x captures' around' index := by
  induction h generalizing captures' around' with
  | here entry found marked fits =>
    cases later with
    | cons first others =>
      obtain ⟨w, found', grows⟩ := first.locals.find found
      exact .here (getElem?_grow more entry) found' (grows.marked marked) fits
  | further entry missing chain ih =>
    cases later with
    | cons first others =>
      exact .further (getElem?_grow more entry) ((first.locals.find_none _).2 missing)
        (ih first.captures others)

/-! ## Bodies -/

/-- The instructions of a body so far. -/
def Body.instrs (b : Body) : List Instr := b.code.toList.map (·.1)

/-- What holds of every body, while the prototypes made so far have serial numbers below `serial`. -/
structure Body.Sound (serial : Nat) (b : Body) : Prop where
  size : b.size = codeSize b.instrs
  localsFit : b.locals.length ≤ maxOperands
  capturesFit : b.captures.size ≤ maxOperands
  constantsFit : b.constants.size ≤ maxOperands
  distinct : b.captures.toList.Nodup
  numbers : ∀ x, Constant.number x ∈ b.constants → ∃ text, x = Decimal.read text
  prototypes : ∀ p, Constant.prototype p ∈ b.constants → p.serial < serial
  depths : ∀ v ∈ b.locals, ∀ d ∈ v.depth, d ≤ b.depth

/-- Every capture of a body is a variable in scope around it. -/
def Linked : List Body → Prop
  | [] => True
  | b :: around =>
    (∀ i < b.captures.size, ∃ x, CapturedAs x b.captures (around.map Body.scope) (UInt8.ofNat i)) ∧
      Linked around

/-- All variables of the body have their initial values. -/
def Body.Settled (b : Body) : Prop := ∀ v ∈ b.locals, v.depth.isSome

/-- The variables that have their initial values: only the last one declared may have none yet. -/
def Body.visible (b : Body) : List Local := b.locals.dropWhile (·.depth.isNone)

/-- The same body later on, seen from a function inside: variables may have been captured. -/
structure Body.Deepens (b b' : Body) : Prop where
  scope : b.scope.Grows b'.scope
  others : b' = { b with locals := b'.locals, captures := b'.captures }

lemma Body.Deepens.refl (b : Body) : b.Deepens b := ⟨.refl _, rfl⟩

lemma Body.Deepens.trans {a b c : Body} (h : a.Deepens b) (h' : b.Deepens c) : a.Deepens c := by
  refine ⟨h.scope.trans h'.scope, ?_⟩
  rw [h'.others, h.others]

section Deepens

variable {b b' : Body}

lemma Body.Deepens.kind (h : b.Deepens b') : b'.kind = b.kind := by rw [h.others]

lemma Body.Deepens.name (h : b.Deepens b') : b'.name = b.name := by rw [h.others]

lemma Body.Deepens.arity (h : b.Deepens b') : b'.arity = b.arity := by rw [h.others]

lemma Body.Deepens.depth (h : b.Deepens b') : b'.depth = b.depth := by rw [h.others]

lemma Body.Deepens.constants (h : b.Deepens b') : b'.constants = b.constants := by rw [h.others]

lemma Body.Deepens.instrs (h : b.Deepens b') : b'.instrs = b.instrs := by
  rw [h.others]
  rfl

end Deepens

/-- The same bodies later on. -/
abbrev BodiesDeepen : List Body → List Body → Prop := List.Forall₂ Body.Deepens

lemma BodiesDeepen.refl (around : List Body) : BodiesDeepen around around :=
  List.forall₂_same.2 fun b _ => Body.Deepens.refl b

lemma BodiesDeepen.trans {A B C : List Body} (h : BodiesDeepen A B) (h' : BodiesDeepen B C) :
    BodiesDeepen A C := by
  induction h generalizing C with
  | nil => exact h'
  | cons first _ ih =>
    cases h' with
    | cons first' others' => exact List.Forall₂.cons (first.trans first') (ih others')

lemma BodiesDeepen.scopes {A B : List Body} (h : BodiesDeepen A B) :
    ScopesGrow (A.map Body.scope) (B.map Body.scope) := by
  induction h with
  | nil => exact List.Forall₂.nil
  | cons first _ ih => exact List.Forall₂.cons first.scope ih

/-! ## States -/

/-- The words ahead. -/
def State.words (s : State) : List Syntax.Word := (s.current :: s.rest).map Token.word

/-- A name is a variable of one of the open bodies. -/
def State.Knows (s : State) (x : String) : Prop :=
  ∃ b ∈ s.body :: s.enclosing, findLocal? x b.locals ≠ none

/-- What holds of every state of a compilation without complaints. -/
structure State.Sound (s : State) : Prop where
  bodies : ∀ b ∈ s.body :: s.enclosing, b.Sound s.serial
  linked : Linked (s.body :: s.enclosing)
  settled : ∀ b ∈ s.enclosing, b.Settled
  pending : ∀ v ∈ s.body.locals.tail, v.depth.isSome
  previous : s.previous.Spelled
  ahead : ∀ t ∈ s.current :: s.rest, t.Spelled
  ends : ∀ t, (s.current :: s.rest).getLast? = some t → t.kind = .endOfInput
  budget : s.rest.length + 1 ≤ s.budget
  superclass : s.classes.headD false = true → s.Knows "super"

/-- The place among the tokens is the same. -/
structure SameTokens (s s' : State) : Prop where
  previous : s'.previous = s.previous
  current : s'.current = s.current
  rest : s'.rest = s.rest

lemma SameTokens.refl (s : State) : SameTokens s s := ⟨rfl, rfl, rfl⟩

lemma SameTokens.trans {s s' s'' : State} (h : SameTokens s s') (h' : SameTokens s' s'') :
    SameTokens s s'' :=
  ⟨h'.previous.trans h.previous, h'.current.trans h.current, h'.rest.trans h.rest⟩

lemma SameTokens.words {s s' : State} (h : SameTokens s s') : s'.words = s.words := by
  rw [State.words, State.words, h.current, h.rest]

/-- A function in the pool was there before, or the code makes a closure of it. -/
def Covers (before after : Array Constant) (code : List Instr) : Prop :=
  ∀ p, Constant.prototype p ∈ after →
    Constant.prototype p ∈ before ∨
      ∃ index captures, .closure index captures ∈ code ∧
        after[index.toNat]? = some (.prototype p)

/-- What a phrase does: it adds instructions and declares `k` variables in the innermost scope. -/
structure Progress (s s' : State) (code : List Instr) (k : Nat) : Prop where
  sound : s'.Sound
  kind : s'.body.kind = s.body.kind
  name : s'.body.name = s.body.name
  arity : s'.body.arity = s.body.arity
  depth : s'.body.depth = s.body.depth
  instrs : s'.body.instrs = s.body.instrs ++ code
  constants : s.body.constants.toList <+: s'.body.constants.toList
  covers : Covers s.body.constants s'.body.constants code
  captures : s.body.captures.toList <+: s'.body.captures.toList
  locals : LocalsGrow s.body.locals (s'.body.locals.drop k)
  length : s'.body.locals.length = s.body.locals.length + k
  fresh : (s'.body.locals.take k).map (·.depth) = List.replicate k (some s.body.depth)
  enclosing : BodiesDeepen s.enclosing s'.enclosing
  classes : s'.classes = s.classes
  budget : s'.budget = s.budget
  serial : s.serial ≤ s'.serial

namespace Progress

variable {s s' s'' : State} {code code' : List Instr} {k k' : Nat}

lemma refl (sound : s.Sound) : Progress s s [] 0 where
  sound := sound
  kind := rfl
  name := rfl
  arity := rfl
  depth := rfl
  instrs := (List.append_nil _).symm
  constants := List.prefix_refl _
  covers _ there := .inl there
  captures := List.prefix_refl _
  locals := .refl _
  length := rfl
  fresh := rfl
  enclosing := .refl _
  classes := rfl
  budget := rfl
  serial := Nat.le_refl _

lemma trans (h : Progress s s' code k) (h' : Progress s' s'' code' k') :
    Progress s s'' (code ++ code') (k' + k) where
  sound := h'.sound
  kind := h'.kind.trans h.kind
  name := h'.name.trans h.name
  arity := h'.arity.trans h.arity
  depth := h'.depth.trans h.depth
  instrs := by rw [h'.instrs, h.instrs, List.append_assoc]
  constants := h.constants.trans h'.constants
  covers p there := by
    rcases h'.covers p there with before | ⟨index, captures, made, entry⟩
    · rcases h.covers p before with before | ⟨index, captures, made, entry⟩
      · exact .inl before
      · exact .inr ⟨index, captures, List.mem_append_left _ made,
          getElem?_grow h'.constants entry⟩
    · exact .inr ⟨index, captures, List.mem_append_right _ made, entry⟩
  captures := h.captures.trans h'.captures
  locals := by
    have later := h'.locals.drop k
    rw [List.drop_drop] at later
    exact h.locals.trans later
  length := by rw [h'.length, h.length]; omega
  fresh := by
    -- A variable of the first phrase keeps its depth in the second one.
    have old := (h'.locals.take k).depths
    rw [h.fresh] at old
    rw [List.take_add, List.map_append, h'.fresh, old, h.depth, List.replicate_append_replicate]
  enclosing := h.enclosing.trans h'.enclosing
  classes := h'.classes.trans h.classes
  budget := h'.budget.trans h.budget
  serial := Nat.le_trans h.serial h'.serial

end Progress

/-! ## Settled bodies -/

lemma Body.Settled.visible {b : Body} (h : b.Settled) : b.visible = b.locals := by
  unfold Body.visible
  cases locals : b.locals with
  | nil => rfl
  | cons v outer =>
    rw [List.dropWhile_cons_of_neg]
    have given := h v (by rw [locals]; exact List.mem_cons_self)
    rw [Option.isNone_eq_false_iff.2 given]
    exact Bool.false_ne_true

lemma LocalsGrow.dropPending {L L' : List Local} (h : LocalsGrow L L') :
    LocalsGrow (L.dropWhile (·.depth.isNone)) (L'.dropWhile (·.depth.isNone)) := by
  induction h with
  | nil => exact List.Forall₂.nil
  | @cons v w L L' first others ih =>
    rw [List.dropWhile_cons, List.dropWhile_cons, first.depth]
    split
    · exact ih
    · exact List.Forall₂.cons first others

/-- After a variable has been declared all variables have their initial values. -/
lemma Progress.settled_after {s s' : State} {code : List Instr} {k : Nat}
    (h : Progress s s' code (k + 1)) : s'.body.Settled := by
  have fresh := h.fresh
  have pending := h.sound.pending
  intro v there
  cases locals : s'.body.locals with
  | nil =>
    rw [locals] at there
    exact absurd there List.not_mem_nil
  | cons w outer =>
    rw [locals] at fresh pending there
    rw [List.take_succ_cons, List.map_cons, List.replicate_succ] at fresh
    rcases List.mem_cons.1 there with rfl | old
    · rw [(List.cons.inj fresh).1]
      rfl
    · exact pending v old

lemma Progress.settled {s s' : State} {code : List Instr} {k : Nat}
    (h : Progress s s' code k) (settled : s.body.Settled) : s'.body.Settled := by
  cases k with
  | zero =>
    intro v there
    obtain ⟨w, old, grows⟩ := forall₂_left h.locals there
    rw [grows.depth]
    exact settled w old
  | succ k => exact h.settled_after

/-! ## Futures -/

/-- What a state may grow into: a finished function's context, and the locals in scope with their
final marks. -/
structure Future (s : State) (Γ : Context) (L : List Local) : Prop where
  kind : Γ.kind = s.body.kind
  constants : s.body.constants.toList <+: Γ.constants.toList
  captures : s.body.captures.toList <+: Γ.captures.toList
  locals : LocalsGrow s.body.visible L
  around : ScopesGrow (s.enclosing.map Body.scope) Γ.around

/-- What comes of the state after a phrase comes of the state before it, too. -/
theorem Progress.future {s s' : State} {code : List Instr} {k : Nat} {Γ : Context} {L : List Local}
    (h : Progress s s' code k) (later : Future s' Γ L) : Future s Γ (L.drop k) where
  kind := later.kind.trans h.kind
  constants := h.constants.trans later.constants
  captures := h.captures.trans later.captures
  around := h.enclosing.scopes.trans later.around
  locals := by
    cases k with
    | zero => exact h.locals.dropPending.trans later.locals
    | succ k =>
      have settled := h.settled_after
      have before : s.body.Settled := by
        intro v there
        obtain ⟨w, new, grows⟩ := forall₂_right h.locals there
        rw [← grows.depth]
        exact settled w (List.mem_of_mem_drop new)
      have after := later.locals
      rw [settled.visible] at after
      rw [before.visible]
      exact h.locals.trans (after.drop (k + 1))

/-- Locals of a future are as many as the variables of the state. -/
lemma Future.length {s : State} {Γ : Context} {L : List Local} (h : Future s Γ L)
    (settled : s.body.Settled) : L.length = s.body.locals.length := by
  rw [← h.locals.length_eq, settled.visible]

end Compile

end Lox
