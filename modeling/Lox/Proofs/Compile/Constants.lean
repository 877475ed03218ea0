import Lox.Proofs.Compile.Actions
import Lox.Proofs.Decimal.LiteralEquality

/-!
# Constants

An index made for a constant finds it in the pool (`stringConstant_spec`, `emitNumber_spec`).  A constant
that is there already is used again, which is right because constants that count as the same have the same
content.
-/

namespace Lox.Compile

open Syntax

variable {s s' : State}

/-! ## Strings -/

lemma internString_spec {content : String} {object : StringObject}
    (run : Runs (internString content) s object s') (sound : s.Sound) :
    object.content = content ∧ ∃ strings, s' = { s with strings } ∧ s'.Sound := by
  obtain ⟨rfl, rfl⟩ := Prod.mk.inj run.eq
  exact ⟨s.strings.content_intern content, _, rfl, { sound with }⟩

/-! ## The pool -/

/-- What making a constant comes to. -/
lemma makeConstant_eq (c : Constant) (s : State) :
    makeConstant c s =
      match s.body.findConstant? c with
      | some index => (UInt8.ofNat index, s)
      | none =>
        if maxOperands ≤ s.body.constants.size then
          (0, { s with body := s.body.addConstant c }.complainOf s.previous .tooManyConstants)
        else (UInt8.ofNat s.body.constants.size, { s with body := s.body.addConstant c }) := by
  show (match s.body.findConstant? c with | some _ => _ | none => _ : Compiling UInt8) s = _
  cases s.body.findConstant? c with
  | some index => rfl
  | none =>
    show (if maxOperands ≤ s.body.constants.size then _ else _ : Compiling UInt8)
      { s with body := s.body.addConstant c } = _
    dsimp only
    split <;> rfl

/-- The constant may be added to a pool while prototypes have serial numbers below `serial`. -/
def Constant.Fits (serial : Nat) : Constant → Prop
  | .number x => ∃ text, x = Decimal.read text
  | .string _ => True
  | .prototype p => p.serial < serial

/-- What making a constant does to the state: the constant at the index counts as the same. -/
structure Pooled (c : Constant) (index : UInt8) (s s' : State) : Prop where
  sound : s'.Sound
  state : ∃ constants, s' = { s with body := { s.body with constants } }
  grows : s.body.constants.toList <+: s'.body.constants.toList
  entries : ∀ c' ∈ s'.body.constants, c' ∈ s.body.constants ∨ c' = c
  found : ∃ c', s'.body.constants[index.toNat]? = some c' ∧
    (c' = c ∨ c' ∈ s.body.constants ∧ c'.same c = true)

lemma UInt8.toNat_ofNat_of_lt_max {n : Nat} (h : n < maxOperands) : (UInt8.ofNat n).toNat = n :=
  UInt8.toNat_ofNat_of_lt' h

theorem makeConstant_spec {c : Constant} {index : UInt8} (run : Runs (makeConstant c) s index s')
    (sound : s.Sound) (fits : Constant.Fits s.serial c) : Pooled c index s s' := by
  unfold makeConstant at run
  rw [runs_get_bind] at run
  have body := sound.body
  cases known : s.body.findConstant? c with
  | some i =>
    simp only [known] at run
    obtain ⟨rfl, rfl, -⟩ := runs_pure.1 run
    unfold Body.findConstant? at known
    obtain ⟨bound, same, -⟩ := Array.findIdx?_eq_some_iff_getElem.1 known
    have small : i < maxOperands := Nat.lt_of_lt_of_le bound body.constantsFit
    refine ⟨sound, ⟨_, rfl⟩, List.prefix_refl _, fun _ there => .inl there, s.body.constants[i], ?_,
      .inr ⟨Array.getElem_mem bound, same⟩⟩
    rw [UInt8.toNat_ofNat_of_lt_max small, Array.getElem?_eq_getElem bound]
  | none =>
    simp only [known] at run
    rw [runs_bind] at run
    obtain ⟨u, s₂, adds, run⟩ := run
    have state : ({ s with body := s.body.addConstant c } : State) = s₂ := congrArg Prod.snd adds.eq
    subst state
    rcases runs_ite.1 run with ⟨-, run⟩ | ⟨room, run⟩
    · rw [runs_bind] at run
      obtain ⟨u', s₃, complains, -⟩ := run
      exact absurd complains not_runs_complain
    · obtain ⟨rfl, rfl, -⟩ := runs_pure.1 run
      have small : s.body.constants.size < maxOperands := Nat.lt_of_not_le room
      have entries : ∀ c' ∈ (s.body.addConstant c).constants, c' ∈ s.body.constants ∨ c' = c :=
        fun c' there => Array.mem_push.1 there
      have body' : (s.body.addConstant c).Sound s.serial :=
        { body with
          constantsFit := by
            rw [Body.addConstant, Array.size_push]
            exact small
          numbers := fun x there => by
            rcases entries _ there with old | rfl
            · exact body.numbers x old
            · exact fits
          prototypes := fun p there => by
            rcases entries _ there with old | rfl
            · exact body.prototypes p old
            · exact fits }
      refine ⟨sound.changeBody body' (.refl _) rfl, ⟨_, rfl⟩, ?_, entries, c, ?_, .inl rfl⟩
      · show s.body.constants.toList <+: (s.body.constants.push c).toList
        rw [Array.toList_push]
        exact List.prefix_append _ _
      · rw [UInt8.toNat_ofNat_of_lt_max small]
        exact Array.getElem?_push_size

/-- Only constants that are no functions have been added. -/
lemma Pooled.progress {c : Constant} {index : UInt8} (h : Pooled c index s s') (sound : s.Sound)
    (plain : ∀ p, c ≠ .prototype p) : Progress s s' [] 0 ∧ SameTokens s s' := by
  obtain ⟨constants, rfl⟩ := h.state
  refine ⟨{ Progress.refl sound with sound := h.sound, constants := h.grows, covers := ?_ },
    ⟨rfl, rfl, rfl⟩⟩
  intro p there
  rcases h.entries _ there with old | new
  · exact .inl old
  · exact absurd new.symm (plain p)

/-! ## Indices of constants -/

/-- The index of a string constant. -/
theorem stringConstant_spec {x : String} {index : UInt8} (run : Runs (stringConstant x) s index s')
    (sound : s.Sound) :
    Progress s s' [] 0 ∧ SameTokens s s' ∧
      ∀ Γ L, Future s' Γ L → Γ.IsName index x := by
  unfold stringConstant at run
  rw [runs_bind] at run
  obtain ⟨object, s₁, interns, run⟩ := run
  obtain ⟨content, strings, rfl, sound₁⟩ := internString_spec interns sound
  have pooled := makeConstant_spec run sound₁ trivial
  obtain ⟨progress, tokens⟩ := pooled.progress sound₁ fun _ => Constant.noConfusion
  refine ⟨{ progress with }, ⟨tokens.previous, tokens.current, tokens.rest⟩, ?_⟩
  intro Γ L later
  obtain ⟨c', found, same⟩ := pooled.found
  have named : ∃ other : StringObject, c' = .string other ∧ other.content = x := by
    rcases same with rfl | ⟨-, same⟩
    · exact ⟨object, rfl, content⟩
    · cases c' with
      | string other =>
        refine ⟨other, rfl, ?_⟩
        rw [← content]
        exact eq_of_beq same
      | number | prototype => exact absurd same Bool.false_ne_true
  obtain ⟨other, rfl, text⟩ := named
  exact ⟨other, getElem?_grow later.constants found, text⟩

/-- The instruction for a number literal. -/
theorem emitNumber_spec {text : String} {u : Unit}
    (run : Runs (emitConstant (.number (Decimal.read text))) s u s') (sound : s.Sound) :
    ∃ index, Progress s s' [.constant index] 0 ∧ SameTokens s s' ∧
      ∀ Γ L, Future s' Γ L →
        Γ.constants[index.toNat]? = some (.number (Decimal.read text)) := by
  unfold emitConstant at run
  rw [runs_bind] at run
  obtain ⟨index, s₁, makes, emits⟩ := run
  have pooled := makeConstant_spec makes sound ⟨text, rfl⟩
  obtain ⟨progress, tokens⟩ := pooled.progress sound fun _ => Constant.noConfusion
  obtain ⟨progress', tokens'⟩ := emit_spec emits progress.sound
  refine ⟨index, progress.trans progress', tokens.trans tokens', ?_⟩
  intro Γ L later
  obtain ⟨c', found, same⟩ := pooled.found
  have number : c' = .number (Decimal.read text) := by
    rcases same with rfl | ⟨old, same⟩
    · rfl
    · cases c' with
      | number y =>
        obtain ⟨other, rfl⟩ := sound.body.numbers y old
        rw [Decimal.read_eq_of_beq same]
      | string | prototype => exact absurd same Bool.false_ne_true
  rw [number] at found
  exact getElem?_grow (progress'.future later).constants found

/-- The instruction for a string literal. -/
theorem emitString_spec {text : String} {u : Unit}
    (run : Runs (do emitConstant (.string (← internString text))) s u s') (sound : s.Sound) :
    ∃ index, Progress s s' [.constant index] 0 ∧ SameTokens s s' ∧
      ∀ Γ L, Future s' Γ L → Γ.IsName index text := by
  have split : (do emitConstant (.string (← internString text)) : Compiling Unit) =
      (do emit (.constant (← stringConstant text))) := rfl
  rw [split, runs_bind] at run
  obtain ⟨index, s₁, makes, emits⟩ := run
  obtain ⟨progress, tokens, named⟩ := stringConstant_spec makes sound
  obtain ⟨progress', tokens'⟩ := emit_spec emits progress.sound
  exact ⟨index, progress.trans progress', tokens.trans tokens', fun Γ L later =>
    named Γ _ (progress'.future later)⟩

end Lox.Compile
