import Lox.Proofs.Bytecode.Shape

/-!
# Blocks

Code that is put together from parts.  `Block T σ items σ'` says that items agree with shapes
wherever they are placed, that they are entered with a stack of shape `σ`, and that they are left at
their end with one of shape `σ'`.  There is one lemma for each way in which the compiler puts parts
together: in a row, a part that is skipped (`Block.skip`), two parts of which one is executed
(`Block.branch`), and loops (`Block.loop`, `Block.loopWithStep`).

The shapes that a part needs are its own business (`Admits`), so parts do not disturb each other.
What one part needs of another one is where it may go.
-/

namespace Lox

variable {T : Surroundings} {σ σ' τ υ : Shape} {items items' : List Item} {o o' : Nat}
  {scope : List String} {i : Instr}

/-! ## Choosing shapes for a part -/

/-- The shapes `E` include the shapes `H`. -/
def Extends (E H : Shapes) : Prop := ∀ p σ, H p = some σ → E p = some σ

/-- There are shapes for the instructions of items at an offset such that `R` holds of all shapes
that include them. -/
def Admits (o : Nat) (items : List Item) (R : Shapes → Prop) : Prop :=
  ∃ H : Shapes, (∀ p σ, H p = some σ → Starts o (instrs items) p) ∧ ∀ E, Extends E H → R E

namespace Admits

variable {R R' : Shapes → Prop}

lemma imp (h : Admits o items R) (h' : ∀ E, R E → R' E) : Admits o items R' := by
  obtain ⟨H, starts, holds⟩ := h
  exact ⟨H, starts, fun E extends_ => h' E (holds E extends_)⟩

/-- No shapes are needed. -/
lemma trivially (items : List Item) (h : ∀ E, R E) : Admits o items R :=
  ⟨fun _ => none, fun _ _ there => (nomatch there), fun E _ => h E⟩

/-- The shapes of two parts do not overlap. -/
lemma append (first : Admits o items R) (second : Admits o' items' R')
    (follows : o' = o + itemsSize items) : Admits o (items ++ items') fun E => R E ∧ R' E := by
  obtain ⟨H, starts, holds⟩ := first
  obtain ⟨H', starts', holds'⟩ := second
  subst follows
  refine ⟨fun p => (H p).or (H' p), ?_, ?_⟩
  · intro p σ there
    rw [instrs_append]
    rcases Option.or_eq_some_iff.1 there with there | ⟨-, there⟩
    · exact (starts p σ there).append_left _
    · exact (starts' p σ there).append_right _
  · intro E extends_
    refine ⟨holds E fun p σ there => ?_, holds' E fun p σ there => ?_⟩
    · exact extends_ p σ (Option.or_eq_some_iff.2 (.inl there))
    · refine extends_ p σ (Option.or_eq_some_iff.2 (.inr ⟨?_, there⟩))
      have lower := (starts' p σ there).bounds.1
      cases other : H p with
      | none => rfl
      | some σ' =>
        have upper := (starts p σ' other).bounds.2
        exact absurd lower (Nat.not_le.2 upper)

/-- An instruction has the shape that it is given. -/
lemma instr (o : Nat) (spares : Spares scope σ.height i) :
    Admits o [.instr i scope] fun E =>
      Goes E o σ ∧ (Flows T E (o + i.size) σ i → Valid T E o [.instr i scope]) := by
  refine ⟨fun p => if p = o then some σ else none, ?_, ?_⟩
  · intro p σ' there
    by_cases here : p = o
    · exact ⟨[], i, [], rfl, here⟩
    · have missing : none = some σ' := (if_neg here).symm.trans there
      exact nomatch missing
  · intro E extends_
    have there := extends_ o σ (if_pos rfl)
    exact ⟨⟨σ, there, .refl σ⟩, fun flows => ⟨⟨σ, there, spares, flows⟩, trivial⟩⟩

end Admits

lemma Goes.at {E : Shapes} (goes : Goes E o σ) (same : o = o') : Goes E o' σ := same ▸ goes

/-! ## Blocks -/

/-- Items agree with shapes wherever they are placed; they take a stack of one shape to a stack of
another one. -/
def Block (T : Surroundings) (σ : Shape) (items : List Item) (σ' : Shape) : Prop :=
  ∀ o, Admits o items fun E => Goes E (o + itemsSize items) σ' → Goes E o σ ∧ Valid T E o items

namespace Block

lemma nil (T : Surroundings) (σ : Shape) : Block T σ [] σ :=
  fun _ => .trivially [] fun _ goes => ⟨goes, trivial⟩

/-- Between statements there are the variables in scope. -/
lemma boundary (T : Surroundings) (height : σ.height = scope.length) :
    Block T σ [.boundary scope] σ := by
  intro o
  refine .trivially _ fun E goes => ⟨goes, fun σ' there => ?_, trivial⟩
  obtain ⟨τ, here, refines⟩ := goes
  obtain rfl : τ = σ' := Option.some.inj (here.symm.trans there)
  rw [← refines.height, height]

lemma seq (first : Block T σ items τ) (second : Block T τ items' σ') :
    Block T σ (items ++ items') σ' := by
  intro o
  refine ((first o).append (second (o + itemsSize items)) rfl).imp ?_
  rintro E ⟨first, second⟩ goes
  obtain ⟨between, valid'⟩ := second (goes.at (by simp only [itemsSize, instrs_append, codeSize_append]; omega))
  obtain ⟨start, valid⟩ := first between
  exact ⟨start, (valid_append _ _ _).2 ⟨valid, valid'⟩⟩

lemma mono (h : Block T τ items υ) (before : σ.Refines τ) (after : υ.Refines σ') :
    Block T σ items σ' := by
  intro o
  refine (h o).imp ?_
  intro E holds goes
  obtain ⟨start, valid⟩ := holds (goes.refine after)
  exact ⟨start.refine before, valid⟩

end Block

lemma Exec.flows {E : Shapes} (h : Exec T i σ τ) (goes : Goes E o τ) : Flows T E o σ i := by
  cases h with
  | literal kind | unary kind | binary kind => cases kind <;> exact ⟨_, by constructor; constructor, goes⟩
  | _ => exact ⟨_, by constructor <;> assumption, goes⟩

namespace Block

/-- An instruction before a block. -/
lemma step (exec : Exec T i σ τ) (spares : Spares scope σ.height i) (rest : Block T τ items σ') :
    Block T σ (.instr i scope :: items) σ' := by
  have first : Block T σ [.instr i scope] τ := by
    intro o
    refine (Admits.instr (T := T) o spares).imp ?_
    rintro E ⟨start, valid⟩ goes
    exact ⟨start, valid (exec.flows goes)⟩
  exact first.seq rest

lemma instr (exec : Exec T i σ τ) (spares : Spares scope σ.height i) :
    Block T σ [.instr i scope] τ :=
  step exec spares (nil T τ)

/-- An instruction after a block. -/
lemma andThen (before : Block T σ items υ) (exec : Exec T i υ τ)
    (spares : Spares scope υ.height i) : Block T σ (items ++ [.instr i scope]) τ :=
  before.seq (instr exec spares)

end Block

/-- Items agree with shapes wherever they are placed, and nothing follows them. -/
def Ends (T : Surroundings) (σ : Shape) (items : List Item) : Prop :=
  ∀ o, Admits o items fun E => Goes E o σ ∧ Valid T E o items

namespace Ends

lemma block (h : Ends T σ items) (σ' : Shape) : Block T σ items σ' :=
  fun o => (h o).imp fun _ holds _ => holds

/-- Nothing follows a return. -/
lemma ret {k : Kind} {slots : List Slot} (top : σ.slots = ⟨k, false⟩ :: slots) (spares : Spares scope σ.height .ret) :
    Ends T σ [.instr .ret scope] := by
  intro o
  refine (Admits.instr (T := T) o spares).imp ?_
  rintro E ⟨start, valid⟩
  exact ⟨start, valid ⟨k, slots, top⟩⟩

lemma after (first : Block T σ items τ) (second : Ends T τ items') : Ends T σ (items ++ items') := by
  intro o
  refine ((first o).append (second (o + itemsSize items)) rfl).imp ?_
  rintro E ⟨first, between, valid'⟩
  obtain ⟨start, valid⟩ := first between
  exact ⟨start, (valid_append _ _ _).2 ⟨valid, valid'⟩⟩

/-- Code that ends has shapes of its own. -/
lemma shapes (h : Ends T σ items) :
    ∃ E : Shapes, (∀ o τ, E o = some τ → Starts 0 (instrs items) o) ∧ Goes E 0 σ ∧
      Valid T E 0 items := by
  obtain ⟨H, starts, holds⟩ := h 0
  exact ⟨H, starts, holds H fun _ _ there => there⟩

end Ends

namespace Block

/-! ## Conditionals -/

/-- A part that is skipped if the value on top is false. -/
lemma skip {distance : UInt16} (far : distance.toNat = itemsSize items) (nonempty : σ.slots ≠ [])
    (spares : Spares scope σ.height (.jumpIfFalse distance)) (part : Block T σ items σ) :
    Block T σ (.instr (.jumpIfFalse distance) scope :: items) σ := by
  intro o
  refine ((Admits.instr (T := T) o spares).append (part (o + 3)) rfl).imp ?_
  rintro E ⟨⟨start, jump⟩, part⟩ goes
  simp only [itemsSize, instrs_instr, codeSize_cons, Instr.size] at goes jump
  obtain ⟨inside, valid⟩ := part (goes.at (Nat.add_assoc _ _ _).symm)
  refine ⟨start, (jump ⟨nonempty, goes.at ?_, inside⟩).1, valid⟩
  rw [far, Nat.add_assoc]

/-- One of two parts, the second one if the value on top is false. -/
lemma branch {distance distance' : UInt16} (far : distance.toNat = itemsSize items + 3)
    (far' : distance'.toNat = itemsSize items') (nonempty : σ.slots ≠ [])
    (spares : Spares scope σ.height (.jumpIfFalse distance))
    (spares' : Spares scope σ'.height (.jump distance'))
    (part : Block T σ items σ') (part' : Block T σ items' σ') :
    Block T σ (.instr (.jumpIfFalse distance) scope ::
      (items ++ .instr (.jump distance') scope :: items')) σ' := by
  intro o
  have placed := (Admits.instr (T := T) o spares).append ((part (o + 3)).append
    ((Admits.instr (T := T) (o + 3 + itemsSize items) spares').append
      (part' (o + 3 + itemsSize items + 3)) rfl) rfl) rfl
  refine placed.imp ?_
  rintro E ⟨⟨start, jump⟩, part, ⟨finish, jump'⟩, part'⟩ goes
  simp only [List.singleton_append, itemsSize, instrs_instr, instrs_append, codeSize_cons,
    codeSize_append, Instr.size] at *
  obtain ⟨inside', valid'⟩ := part' (goes.at (by omega))
  obtain ⟨inside, valid⟩ := part finish
  refine ⟨start, (jump ⟨nonempty, inside'.at (by omega), inside⟩).1, (valid_append _ _ _).2
    ⟨valid, (jump' (goes.at ?_)).1, valid'⟩⟩
  omega

end Block

/-! ## Loops -/

/-- Items that go on with a stack as they found it, or else go to a place `distance` bytes after
them with a stack of shape `τ`. -/
def Test (T : Surroundings) (σ : Shape) (items : List Item) (distance : Nat) (τ : Shape) : Prop :=
  ∀ o, Admits o items fun E =>
    Goes E (o + itemsSize items) σ → Goes E (o + itemsSize items + distance) τ →
      Goes E o σ ∧ Valid T E o items

lemma Test.always (T : Surroundings) (σ : Shape) (distance : Nat) (τ : Shape) :
    Test T σ [] distance τ :=
  fun _ => .trivially [] fun _ goes _ => ⟨goes, trivial⟩

/-- The value of a condition is dropped before going on. -/
lemma Test.condition {distance : UInt16} {k : Kind} {slots : List Slot}
    (cond : Block T ⟨slots, none⟩ items ⟨⟨k, false⟩ :: slots, none⟩)
    (spares : Spares scope (Shape.height ⟨⟨k, false⟩ :: slots, none⟩) (.jumpIfFalse distance))
    (spares' : Spares scope (Shape.height ⟨⟨k, false⟩ :: slots, none⟩) .pop) {n : Nat} (far : distance.toNat = 1 + n) :
    Test T ⟨slots, none⟩ (items ++ [.instr (.jumpIfFalse distance) scope, .instr .pop scope]) n
      ⟨⟨k, false⟩ :: slots, none⟩ := by
  intro o
  have drop : Block T ⟨⟨k, false⟩ :: slots, none⟩ [.instr .pop scope] ⟨slots, none⟩ :=
    .instr .pop spares'
  have placed := (cond o).append
    ((Admits.instr (T := T) (o + itemsSize items) spares).append
      (drop (o + itemsSize items + 3)) rfl) rfl
  refine placed.imp ?_
  rintro E ⟨cond, ⟨between, jump⟩, pop⟩ goes exit
  simp only [List.singleton_append, itemsSize, instrs_instr, instrs_append, instrs_nil,
    codeSize_cons, codeSize_append, codeSize_nil, Instr.size] at *
  obtain ⟨inside, valid'⟩ := pop (goes.at (by omega))
  obtain ⟨start, valid⟩ := cond between
  refine ⟨start, (valid_append _ _ _).2 ⟨valid, (jump ⟨List.cons_ne_nil _ _, exit.at ?_, inside⟩).1,
    valid'⟩⟩
  omega

namespace Block

variable {test step body exit : List Item} {distance distance' distance'' : UInt16}

/-- A loop.  The jump back has the shape that the loop starts with, so all parts know where they may
go before it is known that the loop starts with it, too. -/
lemma loop (cond : Test T σ test (itemsSize body + 3) τ) (inner : Block T σ body σ)
    (after : Block T τ exit σ') (far : distance.toNat = itemsSize test + itemsSize body + 3)
    (spares : Spares scope σ.height (.loop distance)) :
    Block T σ (test ++ (body ++ .instr (.loop distance) scope :: exit)) σ' := by
  intro o
  have placed := (cond o).append ((inner (o + itemsSize test)).append
    ((Admits.instr (T := T) (o + itemsSize test + itemsSize body) spares).append
      (after (o + itemsSize test + itemsSize body + 3)) rfl) rfl) rfl
  refine placed.imp ?_
  rintro E ⟨cond, inner, ⟨back, jump⟩, after⟩ goes
  simp only [List.singleton_append, itemsSize, instrs_instr, instrs_append, codeSize_cons,
    codeSize_append, Instr.size] at *
  obtain ⟨outside, valid''⟩ := after (goes.at (by omega))
  obtain ⟨inside, valid'⟩ := inner back
  obtain ⟨start, valid⟩ := cond inside (outside.at (by omega))
  have again := jump ⟨by omega, start.at (by omega)⟩
  exact ⟨start, (valid_append _ _ _).2 ⟨valid, (valid_append _ _ _).2 ⟨valid', again.1, valid''⟩⟩⟩

/-- A loop with a step between its turns: the way in jumps over it. -/
lemma loopWithStep
    (cond : Test T σ test (3 + (itemsSize step + 3) + itemsSize body + 3) τ)
    (next : Block T σ step σ) (inner : Block T σ body σ) (after : Block T τ exit σ')
    (ahead : distance.toNat = itemsSize step + 3)
    (far : distance'.toNat = itemsSize test + 3 + itemsSize step + 3)
    (far' : distance''.toNat = itemsSize step + 3 + itemsSize body + 3)
    (spares : ∀ i, i.reach = 0 → Spares scope σ.height i) :
    Block T σ (test ++ (.instr (.jump distance) scope ::
      (step ++ .instr (.loop distance') scope ::
        (body ++ .instr (.loop distance'') scope :: exit)))) σ' := by
  intro o
  have placed := (cond o).append
    ((Admits.instr (T := T) (o + itemsSize test) (spares (.jump distance) rfl)).append
      ((next (o + itemsSize test + 3)).append
        ((Admits.instr (T := T) (o + itemsSize test + 3 + itemsSize step)
            (spares (.loop distance') rfl)).append
          ((inner (o + itemsSize test + 3 + itemsSize step + 3)).append
            ((Admits.instr (T := T) (o + itemsSize test + 3 + itemsSize step + 3 + itemsSize body)
                (spares (.loop distance'') rfl)).append
              (after (o + itemsSize test + 3 + itemsSize step + 3 + itemsSize body + 3)) rfl) rfl)
            rfl) rfl) rfl) rfl
  refine placed.imp ?_
  rintro E ⟨cond, ⟨enter, jump⟩, next, ⟨back, jump'⟩, inner, ⟨back', jump''⟩, after⟩ goes
  simp only [List.singleton_append, itemsSize, instrs_instr, instrs_append, codeSize_cons,
    codeSize_append, Instr.size] at *
  obtain ⟨outside, valid₄⟩ := after (goes.at (by omega))
  obtain ⟨inside, valid₃⟩ := inner back'
  obtain ⟨advance, valid₂⟩ := next back
  obtain ⟨start, valid₁⟩ := cond enter (outside.at (by omega))
  have first := jump (inside.at (by omega))
  have again := jump' ⟨by omega, start.at (by omega)⟩
  have again' := jump'' ⟨by omega, advance.at (by omega)⟩
  exact ⟨start, (valid_append _ _ _).2 ⟨valid₁, first.1, (valid_append _ _ _).2
    ⟨valid₂, again.1, (valid_append _ _ _).2 ⟨valid₃, again'.1, valid₄⟩⟩⟩⟩

end Block

end Lox
