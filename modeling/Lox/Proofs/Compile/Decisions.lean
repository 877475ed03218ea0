import Lox.Proofs.Compile.Accesses
import Lox.Proofs.Compile.Building
import Lox.Proofs.Compile.Quiet
import Lox.Proofs.Syntax.Lawful
import Lox.Proofs.Syntax.Limits

/-!
# What compiling decides

Compiling a phrase that is within the limits complains if the phrase is not lawful, and otherwise it
leads to a state of which as much is known as of the one before (`Decides`).  What is known of a state
is an `Outlook`: an `Outline` of each open function, and the open classes.

An outline does not have the size of a function but a bound for how much it grows.  A place that was
marked is so far back at most as the bound has moved since.
-/

namespace Lox.Compile

open Syntax

variable {α β : Type}

/-! ## Outlines -/

/-- What is known of an open function. -/
structure Outline where
  kind : BodyKind
  depth : Nat
  /-- The local variables in scope with their scopes, the innermost first. -/
  locals : List (String × Option Nat)
  /-- The constants that were asked for. -/
  constants : List Literal
  /-- All variables that the function may capture. -/
  captured : List Variable
  /-- A bound for the bytes of the code. -/
  size : Nat
  /-- Places in the code, each with the bound at that time. -/
  marks : List (Nat × Nat)

namespace Outline

/-- More constants are asked for. -/
def ask (o : Outline) (ls : List Literal) : Outline := { o with constants := o.constants ++ ls }

/-- The code grows. -/
def grow (o : Outline) (bytes : Nat) : Outline := { o with size := o.size + bytes }

/-- A place is marked. -/
def mark (o : Outline) (place : Nat) : Outline := { o with marks := (place, o.size) :: o.marks }

/-- A scope is entered. -/
def enter (o : Outline) : Outline := { o with depth := o.depth + 1 }

/-- A variable is declared that has no value yet. -/
def push (o : Outline) (x : String) : Outline := { o with locals := (x, none) :: o.locals }

/-- A variable is declared, unless it is a global. -/
def declare (o : Outline) (x : String) : Outline :=
  { o with locals := if o.depth = 0 then o.locals else (x, some o.depth) :: o.locals }

/-- The names in scope: a variable without a value is not. -/
def names (o : Outline) : List String := (o.locals.dropWhile (·.2.isNone)).map Prod.fst

/-- The variable without a value. -/
def pending (o : Outline) : Option String := o.locals.head?.bind fun v => if v.2.isNone then some v.1 else none

/-- Do declarations make globals? -/
def top (o : Outline) : Bool := o.depth = 0

/-- The names declared in the innermost scope, unless it is the global one. -/
def here (o : Outline) : Option (List String) :=
  if o.depth = 0 then none
  else some ((o.locals.takeWhile fun v => v.2.all (o.depth ≤ ·)).map Prod.fst)

/-- All variables have values, and none is of a scope further in. -/
def Settled (o : Outline) : Prop := ∀ v ∈ o.locals, ∃ d ≤ o.depth, v.2 = some d

/-- The same is known, or less. -/
structure Loosens (o o' : Outline) : Prop where
  kind : o'.kind = o.kind
  depth : o'.depth = o.depth
  locals : o'.locals = o.locals
  constants : o'.constants = o.constants
  captured : o'.captured = o.captured
  size : o.size ≤ o'.size
  marks : o'.marks ⊆ o.marks

end Outline

end Lox.Compile

namespace Lox

/-- What a constant is, apart from the objects. -/
def Constant.literal : Constant → Syntax.Literal
  | .number x => .number x
  | .string s => .string s.content
  | .prototype _ => .function

end Lox

namespace Lox.Compile

open Syntax

variable {α β : Type}

/-- The outline is one of the body. -/
structure Outline.Of (o : Outline) (b : Body) : Prop where
  kind : b.kind = o.kind
  depth : b.depth = o.depth
  locals : b.locals.map (fun v => (v.name, v.depth)) = o.locals
  constants : b.constants.toList.map Constant.literal = Literal.distinct o.constants
  few : b.locals.length ≤ maxOperands
  marks : ∀ p ∈ o.marks, p.1 ≤ b.size ∧ b.size + p.2 ≤ p.1 + o.size

lemma Outline.Of.loosen {o o' : Outline} {b : Body} (h : o.Of b) (loose : o.Loosens o') : o'.Of b where
  kind := h.kind.trans loose.kind.symm
  depth := h.depth.trans loose.depth.symm
  locals := h.locals.trans loose.locals.symm
  constants := by rw [h.constants, loose.constants]
  few := h.few
  marks := fun p there => by
    obtain ⟨from_, near⟩ := h.marks p (loose.marks there)
    exact ⟨from_, Nat.le_trans near (Nat.add_le_add_left loose.size _)⟩

/-! ## Captures -/

/-- The capture is this variable, seen from the functions around. -/
def Denotes : Capture → Variable → List Body → Prop
  | _, _, [] => False
  | c, v, around :: further =>
    if c.isLocal then v = .bound 0 c.index.toNat
    else ∃ c' w, around.captures[c.index.toNat]? = some c' ∧ Denotes c' w further ∧ v = w.outside

/-- Every function captures only what it may capture, and nothing twice. -/
def CapturesFit : List Outline → List Body → Prop
  | o :: os, b :: bs =>
    b.captures.toList.Nodup ∧ (∀ c ∈ b.captures, ∃ v ∈ o.captured, Denotes c v bs) ∧ CapturesFit os bs
  | _, _ => True

/-- A variable is not captured in two ways. -/
lemma Denotes.unique {bs : List Body} :
    ∀ {os : List Outline} {c c' : Capture} {v : Variable}, CapturesFit os bs →
      os.length = bs.length → Denotes c v bs → Denotes c' v bs → c = c' := by
  induction bs with
  | nil => exact fun _ _ h => h.elim
  | cons b bs ih =>
    intro os c c' v fit length h h'
    cases os with
    | nil => exact nomatch length
    | cons o os =>
      obtain ⟨nodup, -, others⟩ := fit
      obtain ⟨isLocal, index⟩ := c
      obtain ⟨isLocal', index'⟩ := c'
      unfold Denotes at h h'
      cases isLocal with
      | true =>
        cases isLocal' with
        | true =>
          simp only [↓reduceIte] at h h'
          rw [h] at h'
          rw [UInt8.toNat_inj.1 (Variable.bound.inj h').2]
        | false =>
          simp only [↓reduceIte, Bool.false_eq_true] at h h'
          obtain ⟨_, w, -, -, outside⟩ := h'
          rw [h] at outside
          cases w <;> exact nomatch outside
      | false =>
        cases isLocal' with
        | true =>
          simp only [↓reduceIte, Bool.false_eq_true] at h h'
          obtain ⟨_, w, -, -, outside⟩ := h
          rw [h'] at outside
          cases w <;> exact nomatch outside
        | false =>
          simp only [↓reduceIte, Bool.false_eq_true] at h h'
          obtain ⟨d, w, entry, denotes, rfl⟩ := h
          obtain ⟨d', w', entry', denotes', outside⟩ := h'
          have same : w = w' := by
            cases w <;> cases w' <;>
              simp only [Variable.outside, Variable.bound.injEq, Variable.global.injEq, Nat.succ.injEq,
                reduceCtorEq] at outside ⊢ <;> exact outside
          subst same
          obtain rfl := ih others (Nat.succ.inj length) denotes denotes'
          obtain ⟨bound, here⟩ := Array.getElem?_eq_some_iff.1 entry
          obtain ⟨bound', here'⟩ := Array.getElem?_eq_some_iff.1 entry'
          have equal : b.captures.toList[index.toNat] = b.captures.toList[index'.toNat] :=
            here.trans here'.symm
          rw [UInt8.toNat_inj.1 ((List.Nodup.getElem_inj_iff nodup).1 equal)]

lemma Denotes.grow {bs bs' : List Body} (deepen : BodiesDeepen bs bs') :
    ∀ {c : Capture} {v : Variable}, Denotes c v bs → Denotes c v bs' := by
  induction deepen with
  | nil => exact fun h => h
  | cons first _ ih =>
    intro c v h
    unfold Denotes at h ⊢
    split
    · next isLocal =>
      rw [if_pos isLocal] at h
      exact h
    · next isLocal =>
      rw [if_neg isLocal] at h
      obtain ⟨c', w, entry, denotes, same⟩ := h
      exact ⟨c', w, getElem?_grow first.scope.captures entry, ih denotes, same⟩

lemma CapturesFit.deepen {o : Outline} {os : List Outline} {b : Body} {bs bs' : List Body}
    (h : CapturesFit (o :: os) (b :: bs)) (deepen : BodiesDeepen bs bs')
    (others : CapturesFit os bs') : CapturesFit (o :: os) (b :: bs') := by
  refine ⟨h.1, fun c there => ?_, others⟩
  obtain ⟨v, allowed, denotes⟩ := h.2.1 c there
  exact ⟨v, allowed, denotes.grow deepen⟩

/-- Different captures of a function are different variables, which are as many as it may capture. -/
lemma CapturesFit.count {o : Outline} {os : List Outline} {bs : List Body} (others : CapturesFit os bs)
    (length : os.length = bs.length) {cs : List Capture} (nodup : cs.Nodup)
    (allowed : ∀ c ∈ cs, ∃ v ∈ o.captured, Denotes c v bs) : cs.length ≤ o.captured.dedup.length := by
  have named : ∃ vs : List Variable, List.Forall₂ (fun c v => Denotes c v bs) cs vs ∧
      vs.Nodup ∧ vs ⊆ o.captured := by
    induction cs with
    | nil => exact ⟨[], .nil, List.nodup_nil, List.nil_subset _⟩
    | cons c cs ih =>
      obtain ⟨new, nodup⟩ := List.nodup_cons.1 nodup
      obtain ⟨vs, denote, nodup', subset⟩ :=
        ih nodup fun c there => allowed c (List.mem_cons_of_mem _ there)
      obtain ⟨v, there, denotes⟩ := allowed c List.mem_cons_self
      refine ⟨v :: vs, .cons denotes denote, List.nodup_cons.2 ⟨fun old => new ?_, nodup'⟩,
        List.cons_subset.2 ⟨there, subset⟩⟩
      obtain ⟨c', known, denotes'⟩ := forall₂_left denote old
      rw [Denotes.unique others length denotes denotes']
      exact known
  obtain ⟨vs, denote, nodup, subset⟩ := named
  rw [denote.length_eq]
  exact (nodup.subperm fun v there => List.mem_dedup.2 (subset there)).length_le

/-- There is a place for every variable that a function may capture. -/
lemma addCapture_fits {o : Outline} {os : List Outline} {b : Body} {bs : List Body}
    (fit : CapturesFit (o :: os) (b :: bs)) (length : os.length = bs.length)
    (few : o.captured.dedup.length ≤ maxOperands) {c : Capture} {v : Variable}
    (allowed : v ∈ o.captured) (denotes : Denotes c v bs) :
    ∃ index b', b.addCapture c = (index, b', []) ∧ b.Captures c index b' ∧
      CapturesFit (o :: os) (b' :: bs) := by
  obtain ⟨nodup, all, others⟩ := fit
  have size : b.captures.size ≤ maxOperands :=
    Nat.le_trans (others.count length nodup fun c there => all c (Array.mem_toList_iff.1 there)) few
  have adds : ∃ index b', b.addCapture c = (index, b', []) := by
    unfold Body.addCapture
    split
    · exact ⟨_, _, rfl⟩
    · next unknown =>
      have new : c ∉ b.captures.toList := fun old =>
        Bool.false_ne_true (((Array.findIdx?_eq_none_iff.1 unknown) c
          (Array.mem_toList_iff.1 old)).symm.trans (beq_self_eq_true c))
      have more := others.count length (List.nodup_cons.2 ⟨new, nodup⟩) fun c' there => by
        rcases List.mem_cons.1 there with rfl | old
        · exact ⟨v, allowed, denotes⟩
        · exact all c' (Array.mem_toList_iff.1 old)
      rw [List.length_cons, Array.length_toList] at more
      rw [if_neg (Nat.not_le_of_lt (Nat.lt_of_lt_of_le more few))]
      exact ⟨_, _, rfl⟩
  obtain ⟨index, b', adds⟩ := adds
  have captures := Body.addCapture_spec ⟨size, nodup⟩ adds
  refine ⟨index, b', adds, captures, captures.ok.distinct, fun c' there => ?_, others⟩
  obtain ⟨i, bound, here⟩ := Array.getElem_of_mem there
  have same := captures.others
  rcases captures.new i bound with old | new
  · obtain ⟨more, grows⟩ := captures.grows
    have entry : b'.captures[i]? = b.captures[i]? := by
      rw [← Array.getElem?_toList, ← grows, List.getElem?_append_left old, Array.getElem?_toList]
    rw [Array.getElem?_eq_getElem bound, Array.getElem?_eq_getElem old] at entry
    exact all c' (here ▸ Option.some.inj entry ▸ Array.getElem_mem old)
  · have small : i < maxOperands := Nat.lt_of_lt_of_le bound captures.ok.fit
    have entry : b'.captures[index.toNat]? = some c' := by
      rw [← new, UInt8.toNat_ofNat_of_lt_max small, Array.getElem?_eq_getElem bound, here]
    obtain rfl := Option.some.inj (entry.symm.trans captures.found)
    exact ⟨v, allowed, denotes⟩

/-! ## Names -/

lemma Outline.Settled.names {o : Outline} (h : o.Settled) : o.names = o.locals.map Prod.fst := by
  unfold Outline.names
  cases locals : o.locals with
  | nil => rfl
  | cons v outer =>
    obtain ⟨d, -, given⟩ := h v (by rw [locals]; exact List.mem_cons_self)
    rw [List.dropWhile_cons_of_neg (by rw [given]; exact Bool.false_ne_true)]

lemma Outline.Of.namesOf {o : Outline} {b : Body} (h : o.Of b) (settled : o.Settled) :
    namesOf b.locals = o.names := by
  rw [settled.names, ← h.locals, List.map_map]
  rfl

lemma Outline.Of.useComplaints {o : Outline} {b : Body} (h : o.Of b) (settled : o.Settled) {x : String}
    {slot : Nat} {v : Local} (found : findLocal? x b.locals = some (slot, v)) :
    Body.useComplaints v = [] := by
  have mem : v ∈ b.locals := by
    generalize b.locals = L at found
    induction L with
    | nil => exact nomatch found
    | cons w outer ih =>
      rw [findLocal?] at found
      split at found
      · exact (Prod.mk.inj (Option.some.inj found)).2 ▸ List.mem_cons_self
      · exact List.mem_cons_of_mem _ (ih found)
  have entry : (v.name, v.depth) ∈ o.locals := by
    rw [← h.locals]
    exact List.mem_map_of_mem (f := fun v : Local => (v.name, v.depth)) mem
  obtain ⟨d, -, given⟩ := settled _ entry
  unfold Body.useComplaints
  rw [show v.depth = some d from given]
  rfl

lemma Outline.Of.deepen {o : Outline} {b b' : Body} (h : o.Of b) (deepens : b.Deepens b') : o.Of b' := by
  have locals : LocalsGrow b.locals b'.locals := deepens.scope.locals
  have size : b'.size = b.size := by rw [deepens.others]
  exact
    { kind := deepens.kind.trans h.kind
      depth := deepens.depth.trans h.depth
      locals := by
        rw [← h.locals]
        generalize b.locals = L at locals
        generalize b'.locals = L' at locals
        induction locals with
        | nil => rfl
        | cons first _ ih => rw [List.map_cons, List.map_cons, first.name, first.depth, ih]
      constants := by rw [deepens.constants, h.constants]
      few := locals.length_eq ▸ h.few
      marks := by
        rw [size]
        exact h.marks }

/-- All functions that are further out may capture what those inside capture through them. -/
def Nested : List Outline → Prop
  | o :: o' :: os =>
    (∀ v ∈ o.captured, ∀ w ∈ v.captured?, w ∈ o'.captured) ∧ Nested (o' :: os)
  | _ => True

/-- Of the functions around a name is found as the variable it means. -/
lemma resolveCapture_fits {x : String} {os : List Outline} {bs : List Body}
    (outlines : List.Forall₂ Outline.Of os bs) (settled : ∀ o ∈ os, o.Settled) :
    (∀ y, meaning x (os.map Outline.names) = .global y →
      ∀ b, Body.resolveCapture x b bs = (none, b, bs, [])) ∧
    ∀ outwards place, meaning x (os.map Outline.names) = .bound outwards place →
      ∀ {o b}, .bound outwards place ∈ o.captured → Nested (o :: os) →
        (∀ o' ∈ o :: os, o'.captured.dedup.length ≤ maxOperands) →
        CapturesFit (o :: os) (b :: bs) →
        ∃ index b' bs', Body.resolveCapture x b bs = (some index, b', bs', []) ∧
          b.Deepens b' ∧ b'.locals = b.locals ∧ BodiesDeepen bs bs' ∧ CapturesFit (o :: os) (b' :: bs') ∧
          ∃ c, b'.captures[index.toNat]? = some c ∧ Denotes c (.bound outwards place) bs' := by
  induction outlines with
  | nil => exact ⟨fun _ _ _ => rfl, fun _ _ nowhere => Variable.noConfusion nowhere⟩
  | @cons o₁ b₁ os bs first others ih =>
    have names := first.namesOf (settled o₁ List.mem_cons_self)
    have ih := ih fun o there => settled o (List.mem_cons_of_mem _ there)
    rw [List.map_cons, ← names]
    unfold Body.resolveCapture
    cases found : findLocal? x b₁.locals with
    | some entry =>
      obtain ⟨slot, v⟩ := entry
      rw [meaning_here _ found]
      refine ⟨fun _ none => Variable.noConfusion none, fun outwards place here {o b} allowed _ few fit => ?_⟩
      obtain ⟨rfl, rfl⟩ := Variable.bound.inj here
      have small : slot < maxOperands := Nat.lt_of_lt_of_le (findLocal?_lt found) first.few
      have denotes : ∀ around, Denotes ⟨true, UInt8.ofNat slot⟩ (.bound 0 slot) (around :: bs) :=
        fun around => by
          unfold Denotes
          rw [if_pos rfl, UInt8.toNat_ofNat_of_lt_max small]
      obtain ⟨index, b', adds, captures, fit'⟩ := addCapture_fits fit
        (congrArg Nat.succ others.length_eq) (few o List.mem_cons_self) allowed (denotes b₁)
      have marked : BodiesDeepen (b₁ :: bs)
          ({ b₁ with locals := markCaptured x b₁.locals } :: bs) :=
        List.Forall₂.cons ⟨⟨findLocal?_markCaptured x b₁.locals, List.prefix_refl _⟩, rfl⟩ (BodiesDeepen.refl _)
      have same := captures.others
      refine ⟨index, b', _, ?_, ⟨⟨?_, captures.grows⟩, ?_⟩, by rw [same], marked, fit'.deepen marked fit.2.2, _,
        captures.found, denotes _⟩
      · dsimp only
        rw [adds, first.useComplaints (settled o₁ List.mem_cons_self) found]
        rfl
      · show LocalsGrow b.locals b'.locals
        rw [same]
        exact .refl _
      · rw [same]
    | none =>
      rw [meaning_further _ found]
      constructor
      · intro y nowhere b
        have nowhere' : ∃ z, meaning x (os.map Outline.names) = .global z := by
          cases means : meaning x (os.map Outline.names) with
          | global z => exact ⟨z, rfl⟩
          | bound => rw [means] at nowhere; cases nowhere
        obtain ⟨z, nowhere'⟩ := nowhere'
        dsimp only
        rw [ih.1 z nowhere' b₁]
      · intro outwards place there o b allowed nested few fit
        have further : ∃ outwards', outwards = outwards' + 1 ∧
            meaning x (os.map Outline.names) = .bound outwards' place := by
          cases means : meaning x (os.map Outline.names) with
          | global z => rw [means] at there; cases there
          | bound outwards' place' =>
            rw [means] at there
            obtain ⟨rfl, rfl⟩ := Variable.bound.inj there
            exact ⟨outwards', rfl, rfl⟩
        obtain ⟨outwards', rfl, means⟩ := further
        obtain ⟨outer, b₁', bs', resolves, deepens, -, deepen, fit₁, c, entry, denotes⟩ :=
          ih.2 outwards' place means (nested.1 _ allowed _ rfl) nested.2
            (fun o there => few o (List.mem_cons_of_mem _ there)) fit.2.2
        have around : BodiesDeepen (b₁ :: bs) (b₁' :: bs') := List.Forall₂.cons deepens deepen
        have denotes' : Denotes ⟨false, outer⟩ (.bound (outwards' + 1) place) (b₁' :: bs') := by
          unfold Denotes
          rw [if_neg Bool.false_ne_true]
          exact ⟨c, _, entry, denotes, rfl⟩
        obtain ⟨index, b', adds, captures, fit'⟩ := addCapture_fits (fit.deepen around fit₁)
          (by rw [List.length_cons, List.length_cons, others.length_eq, deepen.length_eq])
          (few o List.mem_cons_self) allowed denotes'
        have same := captures.others
        refine ⟨index, b', _, ?_, ⟨⟨?_, captures.grows⟩, ?_⟩, by rw [same], around, fit', _, captures.found,
          denotes'⟩
        · dsimp only
          rw [resolves]
          dsimp only
          rw [adds]
          rfl
        · show LocalsGrow b.locals b'.locals
          rw [same]
          exact .refl _
        · rw [same]

/-! ## Outlooks -/

/-- What is known of a state. -/
structure Outlook where
  /-- The open functions, the innermost first. -/
  outlines : List Outline
  classes : List Bool

/-- It is true of the state. -/
structure Outlook.Holds (Γ : Outlook) (s : State) : Prop where
  outlines : List.Forall₂ Outline.Of Γ.outlines (s.body :: s.enclosing)
  captures : CapturesFit Γ.outlines (s.body :: s.enclosing)
  classes : s.classes = Γ.classes
  proper : ∀ t ∈ s.rest, ∀ fault, t.kind ≠ .malformed fault
  serials : ∀ b ∈ s.body :: s.enclosing, ∀ p, Constant.prototype p ∈ b.constants → p.serial < s.serial

/-- All functions that are further out have variables with values, and there is a place for every
variable that a function may capture. -/
structure Regular (os : List Outline) : Prop where
  settled : ∀ o ∈ os.tail, o.Settled
  few : ∀ o ∈ os, o.captured.dedup.length ≤ maxOperands
  nested : Nested os

/-- From states of which so much is known the action comes to states of which so much is known, without
complaint if it is lawful, and otherwise it complains. -/
structure Decides (Γ : Outlook) (act : Compiling α) (P : Prop) (Γ' : α → Outlook) : Prop where
  careful : Careful act
  lawful : P → ∀ s : State, s.Clean → Γ.Holds s →
    (act s).2.Clean ∧ (Γ' (act s).1).Holds (act s).2
  unlawful : ¬P → ∀ s : State, s.Clean → Γ.Holds s → (act s).2.diagnostics ≠ #[]

variable {Γ : Outlook} {P Q : Prop} {o : Outline} {os : List Outline} {classes : List Bool}

namespace Decides

lemma bind {act : Compiling α} {f : α → Compiling β} {Γ₁ : α → Outlook} {Γ₂ : β → Outlook}
    (first : Decides Γ act P Γ₁) (second : ∀ a, Decides (Γ₁ a) (f a) Q Γ₂) :
    Decides Γ (act >>= f) (P ∧ Q) Γ₂ where
  careful := follows_bind first.careful fun a => (second a).careful
  lawful both s clean holds := by
    obtain ⟨clean₁, holds₁⟩ := first.lawful both.1 s clean holds
    exact (second _).lawful both.2 _ clean₁ holds₁
  unlawful not s clean holds := by
    by_cases lawful : P
    · obtain ⟨clean₁, holds₁⟩ := first.lawful lawful s clean holds
      exact (second _).unlawful (fun also => not ⟨lawful, also⟩) _ clean₁ holds₁
    · have careful := (second (act s).1).careful
      exact (worsens (f (act s).1) (act s).2).complaints (first.unlawful lawful s clean holds)

/-- An action that decides nothing comes first. -/
lemma after {act : Compiling α} {f : α → Compiling β} {Γ₁ : α → Outlook} {Γ₂ : β → Outlook}
    (first : Decides Γ act True Γ₁) (second : ∀ a, Decides (Γ₁ a) (f a) Q Γ₂) :
    Decides Γ (act >>= f) Q Γ₂ := by
  have both := first.bind second
  rw [true_and] at both
  exact both

lemma congr {act : Compiling α} {Γ' : α → Outlook} (h : Decides Γ act P Γ') (same : P ↔ Q) :
    Decides Γ act Q Γ' := propext same ▸ h

lemma imp {act : Compiling α} {Γ₁ Γ₂ : α → Outlook} (h : Decides Γ act P Γ₁)
    (less : ∀ a s, (Γ₁ a).Holds s → (Γ₂ a).Holds s) : Decides Γ act P Γ₂ :=
  { h with
    lawful := fun lawful s clean holds =>
      ⟨(h.lawful lawful s clean holds).1, less _ _ (h.lawful lawful s clean holds).2⟩ }

/-- Less is known of the innermost function. -/
lemma loosen {act : Compiling α} {o' o'' : α → Outline} {os' : List Outline} {classes' : List Bool}
    (h : Decides Γ act P fun a => ⟨o' a :: os', classes'⟩) (loose : ∀ a, (o' a).Loosens (o'' a)) :
    Decides Γ act P fun a => ⟨o'' a :: os', classes'⟩ := by
  refine h.imp fun a s holds => ?_
  obtain ⟨first, others⟩ := List.forall₂_cons.1 holds.outlines
  refine { holds with outlines := .cons (first.loosen (loose a)) others, captures := ?_ }
  obtain ⟨nodup, allowed, further⟩ := holds.captures
  exact ⟨nodup, fun c there => (loose a).captured ▸ allowed c there, further⟩

lemma pure (a : α) : Decides Γ (Pure.pure a : Compiling α) True fun _ => Γ where
  careful := inferInstance
  lawful _ _ clean holds := ⟨clean, holds⟩
  unlawful not := absurd trivial not

lemma complain (complaint : Complaint) (Γ' : Unit → Outlook) :
    Decides Γ (Compile.complain complaint) False Γ' where
  careful := inferInstance
  lawful := False.elim
  unlawful _ s clean _ := s.diagnostics_complainOf s.previous complaint clean.sane

/-- What is complained of if a condition holds is lawful if it does not. -/
lemma refusing {c : Prop} [Decidable c] (complaint : Complaint) {f : Unit → Compiling α}
    {Γ' : α → Outlook} (second : Decides Γ (f ()) P Γ') :
    Decides Γ (if c then Compile.complain complaint >>= f else f ()) (¬c ∧ P) Γ' := by
  by_cases h : c
  · rw [if_pos h]
    refine ((complain complaint fun _ => Γ).bind (Q := P) (fun _ => second)).congr ?_
    exact ⟨fun no => no.1.elim, fun no => absurd h no.1⟩
  · rw [if_neg h]
    exact second.congr ⟨fun lawful => ⟨h, lawful⟩, And.right⟩

/-- The action does the same as another one, as far as it is known. -/
lemma of_eq {act act' : Compiling α} {Γ' : α → Outlook} [Careful act] (h : Decides Γ act' P Γ')
    (same : ∀ s, Γ.Holds s → act s = act' s) : Decides Γ act P Γ' where
  careful := inferInstance
  lawful lawful s clean holds := same s holds ▸ h.lawful lawful s clean holds
  unlawful not s clean holds := same s holds ▸ h.unlawful not s clean holds

/-- What is looked up is known. -/
lemma get {g : State → Compiling α} {f : Compiling α} {Γ' : α → Outlook} [∀ s, Careful (g s)]
    (known : ∀ s, Γ.Holds s → g s = f) (second : Decides Γ f P Γ') :
    Decides Γ (MonadState.get >>= g) P Γ' where
  careful := inferInstance
  lawful lawful s clean holds := by
    show (g s s).2.Clean ∧ (Γ' (g s s).1).Holds (g s s).2
    rw [known s holds]
    exact second.lawful lawful s clean holds
  unlawful not s clean holds := by
    show (g s s).2.diagnostics ≠ #[]
    rw [known s holds]
    exact second.unlawful not s clean holds

end Decides

/-! ## Elementary actions -/

/-- The innermost body may be changed. -/
lemma Outlook.Holds.change {s : State} {b : Body} {o' : Outline}
    (holds : Outlook.Holds ⟨o :: os, classes⟩ s) (fits : o'.Of b)
    (captures : b.captures = s.body.captures) (captured : o'.captured = o.captured)
    (pool : ∀ p, Constant.prototype p ∈ b.constants → p.serial < s.serial) :
    Outlook.Holds ⟨o' :: os, classes⟩ { s with body := b } where
  outlines := .cons fits (List.forall₂_cons.1 holds.outlines).2
  captures := by
    obtain ⟨nodup, allowed, further⟩ := holds.captures
    refine ⟨captures ▸ nodup, fun c there => ?_, further⟩
    rw [captured]
    exact allowed c (captures ▸ there)
  classes := holds.classes
  proper := holds.proper
  serials c there := by
    rcases List.mem_cons.1 there with rfl | old
    · exact pool
    · exact holds.serials c (List.mem_cons_of_mem _ old)

lemma Outlook.Holds.first {s : State} (holds : Outlook.Holds ⟨o :: os, classes⟩ s) : o.Of s.body :=
  (List.forall₂_cons.1 holds.outlines).1

lemma Outlook.Holds.pool {s : State} (holds : Γ.Holds s) :
    ∀ p, Constant.prototype p ∈ s.body.constants → p.serial < s.serial :=
  holds.serials s.body List.mem_cons_self

/-- A change of the innermost body. -/
lemma decides_modifyBody {f : Body → Body} {o' : Outline} (captured : o'.captured = o.captured)
    (fits : ∀ b, o.Of b → o'.Of (f b)) (captures : ∀ b, (f b).captures = b.captures)
    (constants : ∀ b, (f b).constants = b.constants) :
    Decides ⟨o :: os, classes⟩ (modifyBody f) True fun _ => ⟨o' :: os, classes⟩ where
  careful := inferInstance
  lawful _ s clean holds := by
    refine ⟨⟨clean.diagnostics, clean.calm, clean.fault⟩, ?_⟩
    refine holds.change (fits _ holds.first) (captures _) captured fun p there => ?_
    rw [constants] at there
    exact holds.pool p there
  unlawful not := absurd trivial not

lemma decides_advance : Decides Γ advance True fun _ => Γ where
  careful := inferInstance
  lawful _ s clean holds := by
    have settles : ∀ (ts : List Token) (s : State), (∀ t ∈ ts, ∀ fault, t.kind ≠ .malformed fault) →
        s.rest = ts → ∃ current rest, s.settle ts = { s with current, rest } ∧ rest ⊆ ts := by
      intro ts s proper all
      cases ts with
      | nil => exact ⟨s.current, s.rest, rfl, by rw [all]; exact List.Subset.refl _⟩
      | cons t ts =>
        refine ⟨t, ts, ?_, List.subset_cons_self t ts⟩
        unfold State.settle
        split
        · next fault malformed => exact absurd malformed (proper t List.mem_cons_self fault)
        · rfl
    obtain ⟨current, rest, next, fewer⟩ :=
      settles s.rest { s with previous := s.current } holds.proper rfl
    have state : (advance s).2 = { s with previous := s.current, current, rest } := next
    rw [state]
    exact ⟨⟨clean.diagnostics, clean.calm, clean.fault⟩,
      { holds with proper := fun t there => holds.proper t (fewer there) }⟩
  unlawful not := absurd trivial not

lemma Outline.Of.emit {b : Body} (h : o.Of b) (i : Instr) (line : Nat) :
    (o.grow i.size).Of (b.emit i line) :=
  { h with
    marks := fun p there => by
      obtain ⟨from_, near⟩ := h.marks p there
      show p.1 ≤ b.size + i.size ∧ b.size + i.size + p.2 ≤ p.1 + (o.size + i.size)
      omega }

lemma decides_emit (i : Instr) :
    Decides ⟨o :: os, classes⟩ (emit i) True fun _ => ⟨o.grow i.size :: os, classes⟩ where
  careful := inferInstance
  lawful _ s clean holds :=
    ⟨⟨clean.diagnostics, clean.calm, clean.fault⟩,
      holds.change (holds.first.emit i s.previous.line) rfl rfl holds.pool⟩
  unlawful not := absurd trivial not

/-! ## Jumps -/

lemma Outline.Of.mark {b : Body} (h : o.Of b) : (o.mark b.size).Of b :=
  { h with
    marks := List.forall_mem_cons.2 ⟨⟨Nat.le_refl _, Nat.le_refl _⟩, h.marks⟩ }

/-- The size of the code is looked up, and the place is marked. -/
lemma Decides.place {g : State → Compiling α} (f : Nat → Compiling α) {Γ' : α → Outlook}
    (known : ∀ s, g s = f s.body.size)
    (second : ∀ place, Decides ⟨o.mark place :: os, classes⟩ (f place) P Γ') :
    Decides ⟨o :: os, classes⟩ (MonadState.get >>= g) P Γ' where
  careful := by
    refine ⟨fun s => ?_⟩
    show Worsens s (g s s).2
    rw [known]
    exact (second s.body.size).careful.step s
  lawful lawful s clean holds := by
    show (g s s).2.Clean ∧ (Γ' (g s s).1).Holds (g s s).2
    rw [known]
    exact (second _).lawful lawful s clean (holds.change holds.first.mark rfl rfl holds.pool)
  unlawful not s clean holds := by
    show (g s s).2.diagnostics ≠ #[]
    rw [known]
    exact (second _).unlawful not s clean (holds.change holds.first.mark rfl rfl holds.pool)

lemma decides_emitJump (jump : UInt16 → Instr) (size : ∀ distance, (jump distance).size = 3) :
    Decides ⟨o :: os, classes⟩ (emitJump jump) True
      fun site => ⟨(o.grow 3).mark site.start :: os, classes⟩ where
  careful := inferInstance
  lawful _ s clean holds := by
    refine ⟨⟨clean.diagnostics, clean.calm, clean.fault⟩, ?_⟩
    have emitted := holds.first.emit (jump 0xffff) s.previous.line
    rw [size] at emitted
    exact holds.change emitted.mark rfl rfl holds.pool
  unlawful not := absurd trivial not

/-- A jump lands that is not too far back. -/
lemma decides_land (site : JumpSite) {bound : Nat} (marked : (site.start, bound) ∈ o.marks)
    (near : o.size ≤ bound + maxDistance) :
    Decides ⟨o :: os, classes⟩ (land site) True fun _ => ⟨o :: os, classes⟩ where
  careful := inferInstance
  lawful _ s clean holds := by
    obtain ⟨from_, distance⟩ := holds.first.marks _ marked
    have state : (land site s).2 =
        { s with body := s.body.aimJump site.index (UInt16.ofNat (s.body.size - site.start)) } := by
      unfold land
      show ((if s.body.size < site.start then _ else _ : Compiling Unit) s).2 = _
      rw [if_neg (Nat.not_lt_of_le from_), if_neg (by omega)]
      rfl
    rw [state]
    exact ⟨⟨clean.diagnostics, clean.calm, clean.fault⟩,
      holds.change { holds.first with } rfl rfl holds.pool⟩
  unlawful not := absurd trivial not

/-- A loop goes back to a place that is not too far back. -/
lemma decides_emitLoop {place bound : Nat} (marked : (place, bound) ∈ o.marks)
    (near : o.size + 3 ≤ bound + maxDistance) :
    Decides ⟨o :: os, classes⟩ (emitLoop place) True fun _ => ⟨o.grow 3 :: os, classes⟩ where
  careful := inferInstance
  lawful _ s clean holds := by
    obtain ⟨from_, distance⟩ := holds.first.marks _ marked
    have state : (emitLoop place s).2 = (emit (.loop (UInt16.ofNat (s.body.size + 3 - place))) s).2 := by
      unfold emitLoop
      show ((if s.body.size + 1 < place then _ else _ : Compiling Unit) s).2 = _
      dsimp only at from_ distance
      rw [if_neg (by omega), if_neg (by omega)]
    rw [state]
    exact (decides_emit _).lawful trivial s clean holds
  unlawful not := absurd trivial not

/-! ## Constants -/

/-- There are few enough different ones among the constants. -/
def Room (ls : List Literal) : Prop := (Literal.distinct ls).length ≤ maxOperands

lemma distinct_append (ls : List Literal) (l : Literal) :
    Literal.distinct (ls ++ [l]) = Literal.add (Literal.distinct ls) l := List.foldl_append

lemma distinct_grows (ls more : List Literal) :
    Literal.distinct ls <+: Literal.distinct (ls ++ more) := by
  induction more generalizing ls with
  | nil => rw [List.append_nil]
  | cons l more ih =>
    have step : Literal.distinct ls <+: Literal.distinct (ls ++ [l]) := by
      rw [distinct_append, Literal.add]
      split
      · exact List.prefix_refl _
      · exact List.prefix_append _ _
    have later := ih (ls ++ [l])
    rw [List.append_assoc] at later
    exact step.trans later

/-- There is room before if there is room in the end. -/
lemma Room.before {ls more : List Literal} (h : Room (ls ++ more)) : Room ls :=
  Nat.le_trans (distinct_grows ls more).length_le h

lemma Constant.same_literal {c c' : Constant}
    (different : ∀ p q, c = .prototype p → c' = .prototype q → p.serial ≠ q.serial) :
    c.same c' = c.literal.same c'.literal := by
  cases c with
  | prototype p =>
    cases c' with
    | prototype q => exact beq_eq_false_iff_ne.2 (different p q rfl rfl)
    | _ => rfl
  | _ => cases c' <;> rfl

/-- A constant that there is room for gets an index. -/
lemma makeConstant_fits {s : State} (clean : s.Clean) (holds : Outlook.Holds ⟨o :: os, classes⟩ s)
    {c : Constant} (room : Room (o.constants ++ [c.literal]))
    (new : ∀ p, c = .prototype p → p.serial < s.serial ∧
      ∀ q, Constant.prototype q ∈ s.body.constants → q.serial ≠ p.serial) :
    (makeConstant c s).2.Clean ∧
      Outlook.Holds ⟨o.ask [c.literal] :: os, classes⟩ (makeConstant c s).2 := by
  have pool := holds.first.constants
  have same : ∀ c' ∈ s.body.constants.toList, c'.same c = c'.literal.same c.literal :=
    fun c' there => Constant.same_literal fun p q is_ is => by
      subst is_
      exact (new q is).2 p (Array.mem_toList_iff.1 there)
  have any : (Literal.distinct o.constants).any (·.same c.literal) =
      s.body.constants.toList.any (Constant.same · c) := by
    rw [← pool, List.any_map, Bool.eq_iff_iff, List.any_eq_true, List.any_eq_true]
    exact exists_congr fun c' => and_congr_right fun there => by
      rw [same c' there, Function.comp_apply]
  rw [makeConstant_eq]
  unfold Room at room
  rw [distinct_append, Literal.add, any] at room
  cases known : s.body.findConstant? c with
  | some index =>
    have there : s.body.constants.toList.any (Constant.same · c) = true := by
      obtain ⟨bound, found, -⟩ := Array.findIdx?_eq_some_iff_getElem.1 known
      exact List.any_eq_true.2 ⟨_, Array.mem_toList_iff.2 (Array.getElem_mem bound), found⟩
    refine ⟨clean, holds.change { holds.first with constants := ?_ } rfl rfl holds.pool⟩
    show _ = Literal.distinct (o.constants ++ [c.literal])
    rw [distinct_append, Literal.add, any, if_pos there, pool]
  | none =>
    have missing : s.body.constants.toList.any (Constant.same · c) = false := by
      rw [List.any_eq_false]
      intro c' there found
      have not := Array.findIdx?_eq_none_iff.1 known c' (Array.mem_toList_iff.1 there)
      exact Bool.false_ne_true (not.symm.trans found)
    rw [missing, if_neg Bool.false_ne_true, ← pool, List.length_append, List.length_map,
      Array.length_toList, List.length_singleton] at room
    dsimp only
    rw [if_neg (Nat.not_le_of_lt room)]
    refine ⟨⟨clean.diagnostics, clean.calm, clean.fault⟩,
      holds.change (b := s.body.addConstant c) { holds.first with constants := ?_ } rfl rfl
        fun p there => ?_⟩
    · show (s.body.constants.push c).toList.map Constant.literal =
        Literal.distinct (o.constants ++ [c.literal])
      rw [distinct_append, Literal.add, any, missing, if_neg Bool.false_ne_true, Array.toList_push,
        List.map_append, pool]
      rfl
    · rcases Array.mem_push.1 there with old | rfl
      · exact holds.pool p old
      · exact (new p rfl).1

/-- A number or string that there is room for gets an index. -/
lemma decides_makeConstant {c : Constant} (plain : ∀ p, c ≠ .prototype p)
    (room : Room (o.constants ++ [c.literal])) :
    Decides ⟨o :: os, classes⟩ (makeConstant c) True fun _ => ⟨o.ask [c.literal] :: os, classes⟩ where
  careful := inferInstance
  lawful _ _ clean holds := makeConstant_fits clean holds room fun p is_ => absurd is_ (plain p)
  unlawful not := absurd trivial not

/-- A string constant. -/
lemma decides_stringConstant {content : String} (room : Room (o.constants ++ [.string content])) :
    Decides ⟨o :: os, classes⟩ (stringConstant content) True
      fun _ => ⟨o.ask [.string content] :: os, classes⟩ where
  careful := inferInstance
  lawful _ s clean holds := by
    have object := s.strings.content_intern content
    show (makeConstant (.string (s.strings.intern content).1)
        { s with strings := (s.strings.intern content).2 }).2.Clean ∧ Outlook.Holds _
      (makeConstant (.string (s.strings.intern content).1)
        { s with strings := (s.strings.intern content).2 }).2
    have literal : (Constant.string (s.strings.intern content).1).literal = .string content :=
      congrArg Literal.string object
    rw [← literal] at room ⊢
    exact makeConstant_fits (s := { s with strings := (s.strings.intern content).2 })
      ⟨clean.diagnostics, clean.calm, clean.fault⟩
      ⟨holds.outlines, holds.captures, holds.classes, holds.proper, holds.serials⟩ room
      fun p is_ => (nomatch is_)
  unlawful not := absurd trivial not

/-! ## Variables -/

/-- Only the last variable may have no value yet. -/
def Outline.Sound (o : Outline) : Prop := ∀ v ∈ o.locals.tail, v.2.isSome

/-- The names in scope, function by function. -/
abbrev env (os : List Outline) : Env := os.map Outline.names

lemma findLocal?_mem {x : String} {L : List Local} {slot : Nat} {v : Local}
    (found : findLocal? x L = some (slot, v)) : v ∈ L ∧ v.name = x := by
  induction L with
  | nil => exact nomatch found
  | cons w outer ih =>
    rw [findLocal?] at found
    split at found
    · next named =>
      obtain ⟨-, rfl⟩ := Prod.mk.inj (Option.some.inj found)
      exact ⟨List.mem_cons_self, named⟩
    · exact ⟨List.mem_cons_of_mem _ (ih found).1, (ih found).2⟩

/-- The variables of the body are those in scope, after one without a value if there is one. -/
lemma Outline.Of.visible {b : Body} (h : o.Of b) (sound : o.Sound) :
    (o.pending = none ∧ o.names = Lox.Syntax.namesOf b.locals ∧ ∀ v ∈ b.locals, v.depth.isSome) ∨
      ∃ w outer, b.locals = w :: outer ∧ w.depth = none ∧ o.pending = some w.name ∧
        o.names = Lox.Syntax.namesOf outer ∧ ∀ v ∈ outer, v.depth.isSome := by
  have locals := h.locals
  unfold Outline.Sound at sound
  unfold Outline.pending Outline.names
  rw [← locals] at sound ⊢
  have all : ∀ L : List Local, (∀ v ∈ L, v.depth.isSome) →
      ((L.map fun v => (v.name, v.depth)).dropWhile (·.2.isNone)).map Prod.fst =
        Lox.Syntax.namesOf L := by
    intro L given
    cases L with
    | nil => rfl
    | cons v outer =>
      rw [List.map_cons, List.dropWhile_cons_of_neg]
      · show v.name :: (outer.map _).map _ = _
        rw [List.map_map]
        rfl
      · have some := given v List.mem_cons_self
        rw [Option.isNone_eq_false_iff.2 some]
        exact Bool.false_ne_true
  generalize b.locals = L at sound ⊢
  cases L with
  | nil => exact .inl ⟨rfl, rfl, fun _ there => absurd there List.not_mem_nil⟩
  | cons w outer =>
    have others : ∀ v ∈ outer, v.depth.isSome := fun v there =>
      sound (v.name, v.depth) (List.mem_map_of_mem (f := fun v : Local => (v.name, v.depth)) there)
    cases depth : w.depth with
    | none =>
      refine .inr ⟨w, outer, rfl, depth, ?_, ?_, others⟩
      · rw [List.map_cons, depth]
        rfl
      · rw [List.map_cons, List.dropWhile_cons_of_pos (by rw [depth]; rfl)]
        exact all outer others
    | some d =>
      have given : ∀ v ∈ w :: outer, v.depth.isSome := List.forall_mem_cons.2 ⟨by rw [depth]; rfl, others⟩
      refine .inl ⟨?_, all _ given, given⟩
      rw [List.map_cons, depth]
      rfl

/-- Where a name leads, in the innermost function or further out. -/
lemma Outline.Of.find {b : Body} (h : o.Of b) (sound : o.Sound) (x : String) :
    (∃ slot v, findLocal? x b.locals = some (slot, v) ∧ Body.useComplaints v ≠ [] ∧
        o.pending = some x) ∨
      (∃ slot v, findLocal? x b.locals = some (slot, v) ∧ Body.useComplaints v = [] ∧
        o.pending ≠ some x ∧ placeOf? x o.names = some slot) ∨
      (findLocal? x b.locals = none ∧ o.pending ≠ some x ∧ placeOf? x o.names = none) := by
  have useful : ∀ v : Local, v.depth.isSome → Body.useComplaints v = [] := fun v given => by
    unfold Body.useComplaints
    rw [Option.isNone_eq_false_iff.2 given]
    rfl
  rcases h.visible sound with ⟨none, names, given⟩ | ⟨w, outer, locals, depth, pending, names, given⟩
  · right
    rw [names, placeOf?_namesOf, none]
    cases found : findLocal? x b.locals with
    | some entry =>
      obtain ⟨slot, v⟩ := entry
      exact .inl ⟨slot, v, rfl, useful v (given v (findLocal?_mem found).1), nofun, rfl⟩
    | none => exact .inr ⟨rfl, nofun, rfl⟩
  · rw [names, placeOf?_namesOf, locals, findLocal?, pending]
    by_cases named : w.name = x
    · rw [if_pos named]
      refine .inl ⟨_, w, rfl, ?_, congrArg some named⟩
      unfold Body.useComplaints
      rw [depth]
      exact List.cons_ne_nil _ _
    · rw [if_neg named]
      have other : some w.name ≠ some x := fun same => named (Option.some.inj same)
      right
      cases found : findLocal? x outer with
      | some entry =>
        obtain ⟨slot, v⟩ := entry
        exact .inl ⟨slot, v, rfl, useful v (given v (findLocal?_mem found).1), other, rfl⟩
      | none => exact .inr ⟨rfl, other, rfl⟩

lemma meaning_global {x y : String} {env : Env} (h : meaning x env = .global y) : y = x := by
  induction env with
  | nil => exact (Variable.global.inj h).symm
  | cons names further ih =>
    unfold meaning at h
    split at h
    · exact nomatch h
    · cases means : meaning x further with
      | global z =>
        rw [means] at h
        obtain rfl := Variable.global.inj h
        exact ih means
      | bound => rw [means] at h; exact nomatch h

/-- A name is found as the variable it means. -/
lemma resolve_fits {s : State} {x : String} (clean : s.Clean)
    (holds : Outlook.Holds ⟨o :: os, classes⟩ s) (sound : o.Sound) (regular : Regular (o :: os))
    (allowed : ∀ v ∈ (meaning x (env (o :: os))).captured?, v ∈ o.captured)
    (lawful : o.pending ≠ some x) :
    (s.resolve x).2.Clean ∧ Outlook.Holds ⟨o :: os, classes⟩ (s.resolve x).2 ∧
      ((s.resolve x).1 = none ∧ nameConstants (env (o :: os)) x = [.string x] ∨
        (∃ place, (s.resolve x).1 = some place) ∧ nameConstants (env (o :: os)) x = []) := by
  obtain ⟨first, others⟩ := List.forall₂_cons.1 holds.outlines
  unfold State.resolve nameConstants
  unfold env at allowed ⊢
  rw [List.map_cons] at allowed ⊢
  unfold meaning at allowed ⊢
  rcases first.find sound x with ⟨_, _, -, -, pending⟩ | ⟨slot, v, found, useful, -, place⟩ |
    ⟨missing, -, place⟩
  · exact absurd pending lawful
  · rw [found, place]
    dsimp only
    rw [useful]
    exact ⟨clean, holds, .inr ⟨⟨_, rfl⟩, rfl⟩⟩
  · rw [place] at allowed ⊢
    rw [missing]
    dsimp only at allowed ⊢
    obtain ⟨globally, locally_⟩ := resolveCapture_fits (x := x) others regular.settled
    cases means : meaning x (os.map Outline.names) with
    | global y =>
      obtain rfl := meaning_global means
      rw [globally y means]
      exact ⟨clean, holds, .inl ⟨rfl, rfl⟩⟩
    | bound outwards place =>
      rw [means] at allowed
      obtain ⟨index, b', bs', resolves, deepens, -, deepen, fit, -⟩ :=
        locally_ outwards place means (allowed _ rfl) regular.nested regular.few holds.captures
      rw [resolves]
      refine ⟨⟨clean.diagnostics, clean.calm, clean.fault⟩, ?_, .inr ⟨⟨_, rfl⟩, rfl⟩⟩
      have bodies : BodiesDeepen (s.body :: s.enclosing) (b' :: bs') := List.Forall₂.cons deepens deepen
      refine ⟨?_, fit, holds.classes, holds.proper, fun b there p made => ?_⟩
      · show List.Forall₂ Outline.Of (o :: os) (b' :: bs')
        have outlines := holds.outlines
        generalize s.body :: s.enclosing = bs at bodies outlines
        generalize b' :: bs' = bs' at bodies
        have later : ∀ {os : List Outline} {bs bs' : List Body}, List.Forall₂ Outline.Of os bs →
            BodiesDeepen bs bs' → List.Forall₂ Outline.Of os bs' := by
          intro os bs bs' outlines
          induction outlines generalizing bs' with
          | nil => exact fun deepen => by cases deepen; exact .nil
          | cons first _ ih =>
            intro deepen
            cases deepen with
            | cons here further => exact .cons (first.deepen here) (ih further)
        exact later outlines bodies
      · obtain ⟨b₀, old, grown⟩ := forall₂_left bodies there
        rw [grown.constants] at made
        exact holds.serials b₀ old p made

lemma access_apply (x : String) (s : State) :
    access x s = (match (s.resolve x).1 with
      | some place => (pure place : Compiling Access)
      | none => do return .globalName (← stringConstant x)) (s.resolve x).2 := rfl

/-- A name that means a global needs a constant. -/
lemma decides_access {x : String} (sound : o.Sound) (regular : Regular (o :: os))
    (allowed : ∀ v ∈ (meaning x (env (o :: os))).captured?, v ∈ o.captured)
    (room : Room (o.constants ++ nameConstants (env (o :: os)) x)) :
    Decides ⟨o :: os, classes⟩ (access x) (o.pending ≠ some x)
      fun _ => ⟨o.ask (nameConstants (env (o :: os)) x) :: os, classes⟩ where
  careful := inferInstance
  lawful lawful s clean holds := by
    obtain ⟨clean', holds', found⟩ := resolve_fits clean holds sound regular allowed lawful
    rw [access_apply]
    rcases found with ⟨none, constants⟩ | ⟨⟨place, some⟩, constants⟩
    · rw [none, constants]
      rw [constants] at room
      exact (decides_stringConstant room).lawful trivial _ clean' holds'
    · rw [some, constants]
      refine ⟨clean', ?_⟩
      have nothing : o.ask [] = o := by
        unfold Outline.ask
        rw [List.append_nil]
      rw [nothing]
      exact holds'
  unlawful not s clean holds := by
    have pending := Decidable.not_not.1 not
    rcases holds.first.find sound x with ⟨slot, v, found, complained, -⟩ | ⟨_, _, -, -, other, -⟩ |
      ⟨-, other, -⟩
    · have state : (access x s).2 =
          (Body.useComplaints v).foldl (fun s c => s.complainOf s.previous c) s := by
        rw [access_apply]
        unfold State.resolve
        rw [found]
        rfl
      rw [state]
      cases complaints : Body.useComplaints v with
      | nil => exact absurd complaints complained
      | cons c cs =>
        have later : Worsens _ _ := Course.complaints cs (s.complainOf s.previous c)
        exact later.complaints (s.diagnostics_complainOf s.previous c clean.sane)
    · exact absurd pending other
    · exact absurd pending other

/-- A variable is read. -/
lemma decides_readVariable {x : String} (sound : o.Sound) (regular : Regular (o :: os))
    (allowed : ∀ v ∈ (meaning x (env (o :: os))).captured?, v ∈ o.captured)
    (room : Room (o.constants ++ nameConstants (env (o :: os)) x)) :
    Decides ⟨o :: os, classes⟩ (readVariable x) (o.pending ≠ some x)
      fun _ => ⟨(o.ask (nameConstants (env (o :: os)) x)).grow 2 :: os, classes⟩ := by
  have reads : ∀ place : Access, Decides ⟨o.ask (nameConstants (env (o :: os)) x) :: os, classes⟩
      (emit place.read) True fun _ => ⟨(o.ask (nameConstants (env (o :: os)) x)).grow 2 :: os, classes⟩ := by
    intro place
    have size : place.read.size = 2 := by cases place <;> rfl
    rw [← size]
    exact decides_emit place.read
  exact ((decides_access sound regular allowed room).bind reads).congr (iff_of_eq (and_true _))

/-! ## Scopes -/

lemma decides_beginScope :
    Decides ⟨o :: os, classes⟩ beginScope True fun _ => ⟨o.enter :: os, classes⟩ :=
  decides_modifyBody rfl (fun _ fits => { fits with depth := congrArg (· + 1) fits.depth })
    (fun _ => rfl) fun _ => rfl

lemma decides_exits (L : List Local) :
    ∀ o : Outline, Decides ⟨o :: os, classes⟩
      (L.forM fun v => emit (if v.isCaptured then .closeUpvalue else .pop)) True
      fun _ => ⟨o.grow L.length :: os, classes⟩ := by
  induction L with
  | nil => exact fun o => Decides.pure ()
  | cons v L ih =>
    intro o
    have size : (if v.isCaptured then Instr.closeUpvalue else Instr.pop).size = 1 := by
      split <;> rfl
    have first : Decides ⟨o :: os, classes⟩ _ True _ :=
      decides_emit (if v.isCaptured then .closeUpvalue else .pop)
    rw [size] at first
    refine (first.after fun _ => ih (o.grow 1)).loosen fun _ => ⟨rfl, rfl, rfl, rfl, rfl, ?_, List.Subset.refl _⟩
    show o.size + 1 + L.length ≤ o.size + (L.length + 1)
    omega

/-- Leaving a scope takes its variables away. -/
lemma decides_endScope {inner outer : List (String × Option Nat)} (locals : o.locals = inner ++ outer)
    (new : ∀ v ∈ inner, v.2 = some o.depth) (old : ∀ v ∈ outer, ∃ d < o.depth, v.2 = some d) :
    Decides ⟨o :: os, classes⟩ endScope True fun _ =>
      ⟨{ o with locals := outer, depth := o.depth - 1 }.grow inner.length :: os, classes⟩ where
  careful := inferInstance
  lawful _ s clean holds := by
    have first := holds.first
    have split : ∃ A B, s.body.locals = A ++ B ∧
        A.map (fun v => (v.name, v.depth)) = inner ∧ B.map (fun v => (v.name, v.depth)) = outer :=
      List.map_eq_append_iff.1 (first.locals.trans locals)
    obtain ⟨A, B, both, here, further⟩ := split
    have leaving : ∀ v ∈ A, v.depth.any (s.body.depth ≤ ·) = true := fun v there => by
      have given := new (v.name, v.depth) (by
        rw [← here]
        exact List.mem_map_of_mem (f := fun v : Local => (v.name, v.depth)) there)
      rw [show v.depth = some o.depth from given, first.depth]
      exact decide_eq_true (Nat.le_refl _)
    have staying : ∀ v ∈ B.head?, ¬v.depth.any (s.body.depth ≤ ·) = true := fun v there => by
      obtain ⟨d, less, given⟩ := old (v.name, v.depth) (by
        rw [← further]
        exact List.mem_map_of_mem (f := fun v : Local => (v.name, v.depth))
          (List.mem_of_mem_head? there))
      rw [show v.depth = some d from given, first.depth]
      exact fun inside => absurd (of_decide_eq_true inside) (Nat.not_le_of_lt less)
    have taken : s.body.scopeLocals = A := by
      unfold Body.scopeLocals
      rw [both, List.takeWhile_append_of_pos leaving]
      cases B with
      | nil => exact List.append_nil A
      | cons v B => rw [List.takeWhile_cons_of_neg (a := v) (by exact staying v rfl), List.append_nil]
    have left : s.body.leaveScope.locals = B := by
      show s.body.locals.dropWhile _ = B
      rw [both, List.dropWhile_append_of_pos leaving]
      cases B with
      | nil => rfl
      | cons v B => rw [List.dropWhile_cons_of_neg (a := v) (by exact staying v rfl)]
    have less : B.length ≤ maxOperands := by
      have few := first.few
      rw [both, List.length_append] at few
      exact Nat.le_trans (Nat.le_add_left _ _) few
    have fits : Outline.Of { o with locals := outer, depth := o.depth - 1 } s.body.leaveScope :=
      { first with
        depth := congrArg (· - 1) first.depth
        locals := by rw [left, further]
        few := by rw [left]; exact less }
    have length : inner.length = A.length := by rw [← here, List.length_map]
    show ((s.body.scopeLocals.forM fun v => emit (if v.isCaptured then .closeUpvalue else .pop))
        { s with body := s.body.leaveScope }).2.Clean ∧ Outlook.Holds _
      ((s.body.scopeLocals.forM fun v => emit (if v.isCaptured then .closeUpvalue else .pop))
        { s with body := s.body.leaveScope }).2
    rw [taken, length]
    exact (decides_exits A _).lawful trivial _ ⟨clean.diagnostics, clean.calm, clean.fault⟩
      (holds.change fits rfl rfl holds.pool)
  unlawful not := absurd trivial not

/-! ## Declarations -/

lemma decides_addLocal {x : String} (place : o.locals.length < maxOperands) :
    Decides ⟨o :: os, classes⟩ (addLocal x) True fun _ => ⟨o.push x :: os, classes⟩ where
  careful := inferInstance
  lawful _ s clean holds := by
    have first := holds.first
    have room : s.body.locals.length < maxOperands := by
      rw [← first.locals, List.length_map] at place
      exact place
    have state : (addLocal x s).2 = { s with body := s.body.pushLocal x } := by
      show ((if maxOperands ≤ s.body.locals.length then _ else _ : Compiling Unit) s).2 = _
      rw [if_neg (Nat.not_le_of_lt room)]
      rfl
    rw [state]
    refine ⟨⟨clean.diagnostics, clean.calm, clean.fault⟩,
      holds.change { first with locals := ?_, few := room } rfl rfl holds.pool⟩
    show (x, none) :: s.body.locals.map _ = (x, none) :: o.locals
    rw [first.locals]
  unlawful not := absurd trivial not

/-- The last variable gets its value. -/
lemma decides_markInitialized {x : String} {d : Option Nat} {outer : List (String × Option Nat)}
    (locals : o.locals = (x, d) :: outer) (inner : o.depth ≠ 0) :
    Decides ⟨o :: os, classes⟩ markInitialized True fun _ =>
      ⟨{ o with locals := (x, some o.depth) :: outer } :: os, classes⟩ := by
  refine decides_modifyBody rfl (fun b fits => ?_) (fun b => ?_) fun b => ?_
  · have given := fits.locals.trans locals
    rw [if_neg (fits.depth ▸ inner)]
    unfold Body.initializeLocal
    cases all : b.locals with
    | nil => rw [all] at given; exact nomatch given
    | cons v L =>
      rw [all, List.map_cons] at given
      obtain ⟨head, tail⟩ := List.cons.inj given
      refine { fits with locals := ?_, few := ?_ }
      · show (v.name, some b.depth) :: L.map _ = _
        rw [tail, fits.depth, show v.name = x from (Prod.mk.inj head).1]
      · have few := fits.few
        rw [all] at few
        exact few
  · split
    · rfl
    · unfold Body.initializeLocal
      split <;> rfl
  · split
    · rfl
    · unfold Body.initializeLocal
      split <;> rfl

/-- Globals need not be put in scope. -/
lemma decides_markInitialized_top (top : o.depth = 0) :
    Decides ⟨o :: os, classes⟩ markInitialized True fun _ => ⟨o :: os, classes⟩ :=
  decides_modifyBody rfl (fun b fits => by rw [if_pos (fits.depth.trans top)]; exact fits)
    (fun b => by
      split
      · rfl
      · unfold Body.initializeLocal
        split <;> rfl)
    fun b => by
      split
      · rfl
      · unfold Body.initializeLocal
        split <;> rfl

lemma decides_defineVariable (constant : UInt8) {x : String} {d : Option Nat}
    {outer : List (String × Option Nat)} (locals : o.locals = (x, d) :: outer) (inner : o.depth ≠ 0) :
    Decides ⟨o :: os, classes⟩ (defineVariable constant) True fun _ =>
      ⟨{ o with locals := (x, some o.depth) :: outer } :: os, classes⟩ :=
  .get (fun _ holds => if_neg (holds.first.depth ▸ inner)) (decides_markInitialized locals inner)

lemma decides_defineVariable_top (constant : UInt8) (top : o.depth = 0) :
    Decides ⟨o :: os, classes⟩ (defineVariable constant) True fun _ => ⟨o.grow 2 :: os, classes⟩ :=
  .get (fun _ holds => if_pos (holds.first.depth.trans top)) (decides_emit (.defineGlobal constant))

/-! ## Functions -/

/-- A function of which nothing has been read. -/
def Outline.opened (kind : BodyKind) (captured : List Variable) : Outline where
  kind := kind
  depth := 0
  locals := [(kind.slotZero, some 0)]
  constants := []
  captured := captured
  size := 0
  marks := []

lemma Outline.opened_of (kind : BodyKind) (captured : List Variable) (name : String) :
    (Outline.opened kind captured).Of (.start kind name) :=
  ⟨rfl, rfl, rfl, rfl, Nat.le_of_ble_eq_true rfl, fun _ there => absurd there List.not_mem_nil⟩

lemma decides_openBody {kind : BodyKind} {name : String} (captured : List Variable) :
    Decides ⟨os, classes⟩ (openBody kind name) True fun _ =>
      ⟨.opened kind captured :: os, classes⟩ where
  careful := inferInstance
  lawful _ s clean holds := by
    refine ⟨⟨clean.diagnostics, clean.calm, clean.fault⟩,
      .cons (Outline.opened_of kind captured name) holds.outlines, ?_, holds.classes, holds.proper, ?_⟩
    · exact ⟨List.nodup_nil, fun c there => absurd there (Array.not_mem_empty c), holds.captures⟩
    · intro b there
      rcases List.mem_cons.1 there with rfl | old
      · exact fun p there => absurd there (Array.not_mem_empty _)
      · exact holds.serials b old
  unlawful not := absurd trivial not

lemma decides_emitReturn :
    Decides ⟨o :: os, classes⟩ emitReturn True fun _ =>
      ⟨o.grow (if o.kind = .initializer then 3 else 2) :: os, classes⟩ := by
  refine .get (fun s holds => by rw [holds.first.kind]) ?_
  split
  · exact (decides_emit _).after fun _ => decides_emit _
  · exact (decides_emit _).after fun _ => decides_emit _

lemma takeBody_inside {s : State} {b : Body} {bs : List Body} (enclosing : s.enclosing = b :: bs) :
    ∃ finished, takeBody s = ((s.body.assemble s.serial, s.body.captures.toList),
      { s with serial := s.serial + 1, finished, body := b, enclosing := bs }) := by
  obtain ⟨_, _, _, _, _, _, _, around, _, _, _, _, _⟩ := s
  obtain rfl : around = b :: bs := enclosing
  exact ⟨_, rfl⟩

/-- The innermost function is finished, and a closure of it is made. -/
lemma decides_closeFunction {f : Outline} (room : Room (o.constants ++ [.function])) :
    Decides ⟨f :: o :: os, classes⟩ (do
      let (prototype, captures) ← closeFunction
      let index ← makeConstant (.prototype prototype)
      emit (.closure index captures)) True fun _ =>
      ⟨(o.ask [.function]).grow (2 + 2 * f.captured.dedup.length) :: os, classes⟩ where
  careful := inferInstance
  lawful _ s clean holds := by
    obtain ⟨clean₁, holds₁⟩ := decides_emitReturn.lawful trivial s clean holds
    have closes : closeFunction s = takeBody (emitReturn s).2 := by
      have around : s.enclosing.isEmpty = false := by
        cases enclosing : s.enclosing with
        | nil =>
          have outlines := holds.outlines
          rw [enclosing] at outlines
          cases outlines with
          | cons _ others => cases others
        | cons => rfl
      show (if s.enclosing.isEmpty then _ else _ : Compiling (Prototype × List Capture)) s = _
      rw [around]
      rfl
    generalize (emitReturn s).2 = s₁ at clean₁ holds₁ closes
    obtain ⟨-, others⟩ := List.forall₂_cons.1 holds₁.outlines
    obtain ⟨nodup, allowed, further⟩ := holds₁.captures
    have count := further.count (o := f) others.length_eq nodup
      fun c there => allowed c (Array.mem_toList_iff.1 there)
    cases enclosing : s₁.enclosing with
    | nil => rw [enclosing] at others; cases others
    | cons b bs =>
      rw [enclosing] at others further
      obtain ⟨finished, taken⟩ := takeBody_inside enclosing
      generalize serial : s₁.serial = n at taken
      have below : ∀ b' ∈ b :: bs, ∀ p, Constant.prototype p ∈ b'.constants → p.serial < n :=
        fun b' there p made => serial ▸
          holds₁.serials b' (List.mem_cons_of_mem _ (by rw [enclosing]; exact there)) p made
      have around : Outlook.Holds ⟨o :: os, classes⟩
          { s₁ with serial := n + 1, finished, body := b, enclosing := bs } :=
        ⟨others, further, holds₁.classes, holds₁.proper,
          fun b' there p made => Nat.lt_succ_of_lt (below b' there p made)⟩
      have pooled := makeConstant_fits (s := { s₁ with serial := n + 1, finished, body := b, enclosing := bs })
        ⟨clean₁.diagnostics, clean₁.calm, clean₁.fault⟩ around (c := .prototype (s₁.body.assemble n))
        room fun p is_ => by
          obtain rfl := Constant.prototype.inj is_
          exact ⟨Nat.lt_succ_self n, fun q there =>
            Nat.ne_of_lt (below b List.mem_cons_self q there)⟩
      obtain ⟨clean₂, holds₂⟩ := pooled
      have state : ∀ act : Prototype × List Capture → Compiling Unit,
          (closeFunction >>= act) s = act (closeFunction s).1 (closeFunction s).2 := fun _ => rfl
      rw [state, closes, taken]
      generalize made : makeConstant (.prototype (s₁.body.assemble n))
        { s₁ with serial := n + 1, finished, body := b, enclosing := bs } = result at clean₂ holds₂
      obtain ⟨index, s₂⟩ := result
      have last : (do
          let index ← makeConstant (.prototype (s₁.body.assemble n))
          emit (.closure index s₁.body.captures.toList))
            { s₁ with serial := n + 1, finished, body := b, enclosing := bs } =
          emit (.closure index s₁.body.captures.toList) s₂ := by
        show emit (.closure (makeConstant (.prototype (s₁.body.assemble n))
          { s₁ with serial := n + 1, finished, body := b, enclosing := bs }).1 s₁.body.captures.toList)
            (makeConstant (.prototype (s₁.body.assemble n))
              { s₁ with serial := n + 1, finished, body := b, enclosing := bs }).2 = _
        rw [made]
      dsimp only
      rw [last]
      have emits : Decides ⟨o.ask [.function] :: os, classes⟩ _ True _ :=
        decides_emit (.closure index s₁.body.captures.toList)
      have bounded : Decides _ _ True fun _ =>
          ⟨(o.ask [.function]).grow (2 + 2 * f.captured.dedup.length) :: os, classes⟩ :=
        emits.loosen fun _ => ⟨rfl, rfl, rfl, rfl, rfl, ?_, List.Subset.refl _⟩
      · exact bounded.lawful trivial s₂ clean₂ holds₂
      show o.size + (2 + 2 * s₁.body.captures.toList.length) ≤ o.size + (2 + 2 * f.captured.dedup.length)
      omega
  unlawful not := absurd trivial not

end Lox.Compile
