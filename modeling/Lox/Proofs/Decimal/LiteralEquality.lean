import Lox.Decimal.Literal
import Mathlib

/-!
# Equality of literals

The pool of a function has one constant for all numbers that compare equal, and comparing doubles
does not tell the two zeros apart.  Literals have no sign, so this does not matter for them: two
literals whose values compare equal have the same value (`read_eq_of_beq`), bit for bit.  Nor is any
of them no number, so each compares equal to itself (`read_beq_self`).

The proof takes doubles apart the way the logical model of `Float` does, into sign, exponent and
mantissa.  Among doubles without sign the parts that are compared determine all bits.
-/

namespace Lox.Decimal

open Float.Model Float.Model.UnpackedFloat

/-- The double has no sign, or is no number. -/
def Unsigned : UnpackedFloat → Prop
  | .infinity s | .zero s | .finite s _ _ _ => s = .positive
  | .notANumber => True

/-! ## The parts of a double -/

lemma toNat_unpackMantissa (x : BitVec 64) :
    (@unpackMantissa .binary64 x).toNat = x.toNat % 2 ^ 52 := by
  simp [unpackMantissa, BitVec.extractLsb]

lemma toNat_unpackExponent (x : BitVec 64) :
    (@unpackExponent .binary64 x).toNat = x.toNat / 2 ^ 52 % 2 ^ 11 := by
  simp [unpackExponent, BitVec.extractLsb, Nat.shiftRight_eq_div_pow]

lemma toNat_unpackSign (x : BitVec 64) :
    (@unpackSign .binary64 x).toNat = x.toNat / 2 ^ 63 % 2 := by
  simp [unpackSign, BitVec.extractLsb, Nat.shiftRight_eq_div_pow]

lemma sign_of_lt {x : BitVec 64} (h : x.toNat < 2 ^ 63) :
    Sign.ofBitVec (@unpackSign .binary64 x) = .positive := by
  have zero : @unpackSign .binary64 x = 0#1 := by
    apply BitVec.eq_of_toNat_eq
    rw [toNat_unpackSign]
    have : (0#1).toNat = 0 := rfl
    omega
  rw [zero]
  rfl

lemma unsigned_unpack {x : BitVec 64} (h : x.toNat < 2 ^ 63) :
    Unsigned (UnpackedFloat.unpack .binary64 x) := by
  have sign := sign_of_lt h
  unfold UnpackedFloat.unpack
  dsimp only
  split
  · split
    · exact sign
    · trivial
  · split
    · split <;> exact sign
    · exact sign

lemma toNat_packComponents (e : BitVec 11) (m : BitVec 52) :
    (packComponents .binary64 .positive e m).toNat = e.toNat * 2 ^ 52 + m.toNat := by
  have hm := m.isLt
  have zero : (0#1).toNat = 0 := rfl
  simp only [packComponents, Sign.toBitVec, BitVec.toNat_append, zero, Nat.zero_shiftLeft,
    Nat.zero_or]
  rw [← Nat.shiftLeft_add_eq_or_of_lt hm, Nat.shiftLeft_eq]

lemma toNat_packComponents_lt (e : BitVec 11) (m : BitVec 52) :
    (packComponents .binary64 .positive e m).toNat < 2 ^ 63 := by
  have he := e.isLt
  have hm := m.isLt
  rw [toNat_packComponents]
  omega

lemma toNat_pack_lt {f : UnpackedFloat} (h : Unsigned f) : (UnpackedFloat.pack .binary64 f).toNat < 2 ^ 63 := by
  cases f with
  | notANumber => exact toNat_packComponents_lt _ _
  | infinity s | zero s =>
    obtain rfl : s = .positive := h
    exact toNat_packComponents_lt _ _
  | finite s m e pos =>
    obtain rfl : s = .positive := h
    unfold UnpackedFloat.pack
    dsimp only
    split
    · exact toNat_packComponents_lt _ _
    · split <;> exact toNat_packComponents_lt _ _

/-! ## Comparison -/

/-- What a double without sign is.  The formula for finite ones covers subnormal ones, which have
the exponent of the first normal ones without the leading bit of the mantissa.  All other ones have
that bit. -/
lemma unpack_of_lt {x : BitVec 64} (h : x.toNat < 2 ^ 63) :
    (UnpackedFloat.unpack .binary64 x = .infinity .positive ∧ x.toNat = 2047 * 2 ^ 52) ∨
    UnpackedFloat.unpack .binary64 x = .notANumber ∨
    (UnpackedFloat.unpack .binary64 x = .zero .positive ∧ x.toNat = 0) ∨
    ∃ (m : Nat) (e : Int) (pos : 0 < m),
      UnpackedFloat.unpack .binary64 x = .finite .positive m e pos ∧
        x.toNat = (e + 1074).toNat * 2 ^ 52 + m ∧ x.toNat < 2047 * 2 ^ 52 ∧
        -1074 ≤ e ∧ m < 2 ^ 53 ∧ (e = -1074 ∨ 2 ^ 52 ≤ m) := by
  have exponent := toNat_unpackExponent x
  have mantissa := toNat_unpackMantissa x
  have bound := (@unpackExponent .binary64 x).isLt
  unfold UnpackedFloat.unpack
  simp only [sign_of_lt h]
  split
  · next top =>
    have full : (@unpackExponent .binary64 x).toNat = 2047 := by rw [top]; rfl
    split
    · next none =>
      have empty : (@unpackMantissa .binary64 x).toNat = 0 := by rw [none]; rfl
      exact .inl ⟨rfl, by omega⟩
    · exact .inr (.inl rfl)
  · next top =>
    split
    · next bottom =>
      have low : (@unpackExponent .binary64 x).toNat = 0 := by rw [bottom]; rfl
      split
      · next none =>
        have empty : (@unpackMantissa .binary64 x).toNat = 0 := by rw [none]; rfl
        exact .inr (.inr (.inl ⟨rfl, by omega⟩))
      · next some =>
        have pos : 0 < (@unpackMantissa .binary64 x).toNat := by
          apply Nat.pos_of_ne_zero
          exact fun zero => some (BitVec.eq_of_toNat_eq zero)
        have small := (@unpackMantissa .binary64 x).isLt
        refine .inr (.inr (.inr ⟨_, _, pos, rfl, ?_⟩))
        simp only [low, Format.exponentBias]
        omega
    · next bottom =>
      have high : (@unpackExponent .binary64 x).toNat ≠ 0 := by
        intro zero
        exact bottom (BitVec.eq_of_toNat_eq zero)
      have leading : (1#1 ++ @unpackMantissa .binary64 x).toNat =
          2 ^ 52 + (@unpackMantissa .binary64 x).toNat := by
        have one : (1#1).toNat = 1 := rfl
        rw [BitVec.toNat_append, ← Nat.shiftLeft_add_eq_or_of_lt (BitVec.isLt _), one,
          Nat.shiftLeft_eq, Nat.one_mul]
      have pos : 0 < (1#1 ++ @unpackMantissa .binary64 x).toNat := by omega
      have small := (@unpackMantissa .binary64 x).isLt
      have below : (@unpackExponent .binary64 x).toNat < 2047 := by
        refine Nat.lt_of_le_of_ne (Nat.le_of_lt_succ bound) fun full => top (BitVec.eq_of_toNat_eq ?_)
        rw [full]
        rfl
      refine .inr (.inr (.inr ⟨_, _, pos, rfl, ?_⟩))
      simp only [leading, Format.exponentBias]
      omega

/-- Doubles without sign that compare equal are the same. -/
lemma eq_of_compare {x y : BitVec 64} (hx : x.toNat < 2 ^ 63) (hy : y.toNat < 2 ^ 63)
    (h : (UnpackedFloat.unpack .binary64 x).compare (UnpackedFloat.unpack .binary64 y) = some .eq) :
    x = y := by
  apply BitVec.eq_of_toNat_eq
  rcases unpack_of_lt hx with ⟨ux, vx⟩ | ux | ⟨ux, vx⟩ | ⟨m, e, _, ux, vx, -⟩ <;>
    rcases unpack_of_lt hy with ⟨uy, vy⟩ | uy | ⟨uy, vy⟩ | ⟨m', e', _, uy, vy, -⟩ <;>
    rw [ux, uy] at h <;>
    simp only [UnpackedFloat.compare, reduceCtorEq, Option.some.injEq] at h
  · rw [vx, vy]
  · rw [vx, vy]
  · rw [Ordering.then_eq_eq, Std.compare_eq_iff_eq, Std.compare_eq_iff_eq] at h
    rw [vx, vy, h.1, h.2]

/-- The doubles of two ranks that compare equal are the same. -/
lemma ofRank_eq_of_beq {r s : Nat} (hr : r < 2 ^ 63) (hs : s < 2 ^ 63)
    (h : (ofRank r == ofRank s) = true) : ofRank r = ofRank s := by
  have small : ∀ n < 2 ^ 63, (UInt64.ofNat n).toBitVec.toNat < 2 ^ 63 := by
    intro n bound
    rw [UInt64.toNat_toBitVec, UInt64.toNat_ofNat']
    omega
  have same : (Float.Model.ofBits (UInt64.ofNat r)).toBits.toBitVec =
      (Float.Model.ofBits (UInt64.ofNat s)).toBits.toBitVec := by
    apply eq_of_compare
    · exact toNat_pack_lt (unsigned_unpack (small r hr))
    · exact toNat_pack_lt (unsigned_unpack (small s hs))
    · exact eq_of_beq h
  have bits := UInt64.eq_of_toBitVec_eq same
  unfold ofRank Float.ofBits
  cases left : Float.Model.ofBits (UInt64.ofNat r) with
  | mk a validA =>
    cases right : Float.Model.ofBits (UInt64.ofNat s) with
    | mk b validB =>
      rw [left, right] at bits
      obtain rfl : a = b := bits
      rfl

lemma nearestRank_le (num den : Nat) : nearestRank num den ≤ infinityRank := by
  unfold nearestRank
  exact Nat.min_le_right _ _

/-- Literals whose values compare equal have the same value. -/
theorem read_eq_of_beq {a b : String} (h : (read a == read b) = true) : read a = read b := by
  have small : infinityRank < 2 ^ 63 := by decide
  exact ofRank_eq_of_beq (Nat.lt_of_le_of_lt (nearestRank_le _ _) small)
    (Nat.lt_of_le_of_lt (nearestRank_le _ _) small) h

/-! ## Literals are numbers -/

/-- What has a rank up to that of infinity is a number. -/
lemma unpack_ne_notANumber {x : BitVec 64} (h : x.toNat ≤ infinityRank) :
    UnpackedFloat.unpack .binary64 x ≠ .notANumber := by
  have exponent := toNat_unpackExponent x
  have mantissa := toNat_unpackMantissa x
  have bound : x.toNat ≤ 2047 * 2 ^ 52 := h
  unfold UnpackedFloat.unpack
  dsimp only
  split
  · next top =>
    have full : (@unpackExponent .binary64 x).toNat = 2047 := by rw [top]; rfl
    split
    · exact nofun
    · next some =>
      have empty : (@unpackMantissa .binary64 x).toNat = 0 := by omega
      exact absurd (BitVec.eq_of_toNat_eq empty) some
  · split
    · split <;> exact nofun
    · exact nofun

/-- Packing a number gives the bits of a number. -/
lemma toNat_pack_le {f : UnpackedFloat} (unsigned : Unsigned f) (number : f ≠ .notANumber) :
    (UnpackedFloat.pack .binary64 f).toNat ≤ infinityRank := by
  have top : infinityRank = 2047 * 2 ^ 52 := rfl
  have infinite : (packedInfinity .binary64 .positive).toNat ≤ infinityRank := by decide
  cases f with
  | notANumber => exact absurd rfl number
  | infinity s | zero s =>
    obtain rfl : s = .positive := unsigned
    decide
  | finite s m e pos =>
    obtain rfl : s = .positive := unsigned
    unfold UnpackedFloat.pack
    dsimp only
    split
    · exact infinite
    · next small =>
      split
      · rw [toNat_packComponents, BitVec.toNat_ofNat, BitVec.toNat_ofNat, top]
        have low := Nat.mod_lt m (show 0 < 2 ^ 52 by decide)
        have high := Nat.mod_le (e + Format.binary64.exponentBias + (52 : Nat)).toNat (2 ^ 11)
        omega
      · rw [toNat_packComponents, BitVec.toNat_ofNat, BitVec.toNat_ofNat, top]
        have low := Nat.mod_lt m (show 0 < 2 ^ 52 by decide)
        omega

lemma compare_self {f : UnpackedFloat} (number : f ≠ .notANumber) : f.compare f = some .eq := by
  cases f with
  | notANumber => exact absurd rfl number
  | infinity s => cases s <;> rfl
  | zero s => simp [UnpackedFloat.compare]
  | finite s m e pos => cases s <;> simp [UnpackedFloat.compare]

/-- The double of a rank up to that of infinity is equal to itself. -/
lemma ofRank_beq_self {r : Nat} (h : r ≤ infinityRank) : (ofRank r == ofRank r) = true := by
  have small : (UInt64.ofNat r).toBitVec.toNat ≤ infinityRank := by
    have width : infinityRank < 2 ^ 64 := by decide
    rw [UInt64.toNat_toBitVec, UInt64.toNat_ofNat', Nat.mod_eq_of_lt (Nat.lt_of_le_of_lt h width)]
    exact h
  have unsigned := unsigned_unpack (Nat.lt_of_le_of_lt small (by decide))
  have packed := toNat_pack_le unsigned (unpack_ne_notANumber small)
  have same := compare_self (unpack_ne_notANumber packed)
  have equal : (UnpackedFloat.compare _ _ == some .eq) = true := beq_iff_eq.2 same
  exact equal

/-- The value of a literal is equal to itself. -/
theorem read_beq_self (a : String) : (read a == read a) = true :=
  ofRank_beq_self (nearestRank_le _ _)

end Lox.Decimal
