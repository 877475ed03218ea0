import Lox.Proofs.Decimal.LiteralEquality

/-!
# Doubles and their ranks

A double that is a number is given by its sign and its rank (`Binary64.ofFloat_eq_iff`), and one without sign is the
double of its rank (`ofRank_toBits`).  Among doubles without sign the larger one has the larger rank
(`Ranked.compare`).
-/

namespace Lox.Decimal

open Float.Model Float.Model.UnpackedFloat

/-- A number without sign, taken apart, and its rank.  All finite ones but those of the lowest exponent have a
leading bit. -/
inductive Ranked : UnpackedFloat → Nat → Prop where
  | infinity : Ranked (.infinity .positive) infinityRank
  | zero : Ranked (.zero .positive) 0
  | finite {m e pos r} (rank : r = (e + 1074).toNat * 2 ^ 52 + m) (finite : r < 2047 * 2 ^ 52) (least : -1074 ≤ e)
      (fits : m < 2 ^ 53) (leading : e = -1074 ∨ 2 ^ 52 ≤ m) : Ranked (.finite .positive m e pos) r

namespace Ranked

variable {f g : UnpackedFloat} {r s : Nat}

lemma unpack {x : BitVec 64} (number : x.toNat ≤ infinityRank) :
    Ranked (UnpackedFloat.unpack .binary64 x) x.toNat := by
  rcases unpack_of_lt (Nat.lt_of_le_of_lt number (by decide)) with
    ⟨unpacks, rank⟩ | unpacks | ⟨unpacks, rank⟩ | ⟨m, e, pos, unpacks, rank, finite, least, fits, leading⟩
  · rw [unpacks, rank]
    exact .infinity
  · exact absurd unpacks (unpack_ne_notANumber number)
  · rw [unpacks, rank]
    exact .zero
  · rw [unpacks]
    exact .finite rank finite least fits leading

/-- Packing gives the rank back. -/
lemma toNat_pack (ranked : Ranked f r) : (UnpackedFloat.pack .binary64 f).toNat = r := by
  cases ranked with
  | infinity => decide
  | zero => decide
  | @finite m e pos r rank finite least fits leading =>
    have bias : (Format.binary64.exponentBias : Int) = 1023 := rfl
    have top : ¬2 ^ 11 ≤ (e + 1023 + (52 : Nat)).toNat + 1 := by omega
    unfold UnpackedFloat.pack
    dsimp only
    rw [bias, if_neg top]
    split
    · next length =>
      have leads : 2 ^ 52 ≤ m := by
        have length : m.log2 + 1 = 53 := length
        have := Nat.log2_self_le pos.ne'
        rwa [show m.log2 = 52 by omega] at this
      rw [toNat_packComponents, BitVec.toNat_ofNat, BitVec.toNat_ofNat]
      show (e + 1023 + (52 : Nat)).toNat % 2 ^ 11 * 2 ^ 52 + m % 2 ^ 52 = r
      omega
    · next length =>
      have small : m < 2 ^ 52 := by
        have length : ¬m.log2 + 1 = 53 := length
        have most : m.log2 < 53 := (Nat.log2_lt pos.ne').2 fits
        exact (Nat.log2_lt pos.ne').1 (by omega)
      rw [toNat_packComponents, BitVec.toNat_ofNat]
      show 0 * 2 ^ 52 + m % 2 ^ 52 = r
      omega

/-- The larger number has the larger rank. -/
lemma compare (left : Ranked f r) (right : Ranked g s) : f.compare g = some (Ord.compare r s) := by
  cases left with
  | infinity =>
    cases right with
    | infinity => rfl
    | zero => rfl
    | finite _ below => exact congrArg some (Nat.compare_eq_gt.2 below).symm
  | zero =>
    cases right with
    | infinity => rfl
    | zero => rfl
    | @finite m _ pos => exact congrArg some (Nat.compare_eq_lt.2 (by omega)).symm
  | @finite m e pos r rank below least fits leading =>
    cases right with
    | infinity => exact congrArg some (Nat.compare_eq_lt.2 below).symm
    | zero => exact congrArg some (Nat.compare_eq_gt.2 (by omega)).symm
    | @finite m' e' pos' s rank' below' least' fits' leading' =>
      show some ((Ord.compare e e').then (Ord.compare m m')) = _
      rcases lt_trichotomy e e' with lower | rfl | higher
      · have smaller : r < s := by omega
        rw [Int.compare_eq_lt.2 lower, Nat.compare_eq_lt.2 smaller]
        rfl
      · rw [Std.compare_self]
        rcases lt_trichotomy m m' with less | rfl | more
        · rw [Nat.compare_eq_lt.2 less, Nat.compare_eq_lt.2 (by omega)]
          rfl
        · rw [rank, rank', Std.compare_self, Std.compare_self]
          rfl
        · rw [Nat.compare_eq_gt.2 more, Nat.compare_eq_gt.2 (by omega)]
          rfl
      · have larger : s < r := by omega
        rw [Int.compare_eq_gt.2 higher, Nat.compare_eq_gt.2 larger]
        rfl

end Ranked

/-! ## Bits -/

/-- The bits of a number without sign are those of its rank. -/
lemma toBits_ofRank {r : Nat} (number : r ≤ infinityRank) : (ofRank r).toBits.toNat = r := by
  have small : r < 2 ^ 64 := Nat.lt_of_le_of_lt number (by decide)
  have bits : (UInt64.ofNat r).toBitVec.toNat = r := by
    rw [UInt64.toNat_toBitVec, UInt64.toNat_ofNat', Nat.mod_eq_of_lt small]
  have ranked := Ranked.unpack (x := (UInt64.ofNat r).toBitVec) (bits.symm ▸ number)
  rw [bits] at ranked
  exact ranked.toNat_pack

/-- Doubles are determined by their bits. -/
lemma eq_of_toBits {x y : Float} (same : x.toBits = y.toBits) : x = y := by
  obtain ⟨⟨a, validA⟩⟩ := x
  obtain ⟨⟨b, validB⟩⟩ := y
  obtain rfl : a = b := same
  rfl

lemma ofRank_toBits {x : Float} (number : x.toBits.toNat ≤ infinityRank) : ofRank x.toBits.toNat = x :=
  eq_of_toBits (UInt64.toNat.inj (toBits_ofRank number))

/-- What is no number has bits beyond those of infinity. -/
lemma isNaN_iff (x : Float) : x.isNaN = true ↔ infinityRank < x.toBits.toNat % 2 ^ 63 := by
  have unpacks : x.isNaN = (UnpackedFloat.unpack .binary64 x.toBits.toBitVec).isNaN := rfl
  have bits : x.toBits.toNat = x.toBits.toBitVec.toNat := rfl
  rw [unpacks, bits]
  generalize x.toBits.toBitVec = b
  have exponent := toNat_unpackExponent b
  have mantissa := toNat_unpackMantissa b
  have top : infinityRank = 2047 * 2 ^ 52 := rfl
  unfold UnpackedFloat.unpack
  dsimp only
  split
  · next full =>
    have full : (@unpackExponent .binary64 b).toNat = 2047 := by rw [full]; rfl
    split
    · next none =>
      have empty : (@unpackMantissa .binary64 b).toNat = 0 := by rw [none]; rfl
      exact iff_of_false (by simp [UnpackedFloat.isNaN]) (by omega)
    · next some =>
      have pos : (@unpackMantissa .binary64 b).toNat ≠ 0 := fun zero => some (BitVec.eq_of_toNat_eq zero)
      exact iff_of_true rfl (by omega)
  · next other =>
    have other : (@unpackExponent .binary64 b).toNat ≠ 2047 := fun full => other (BitVec.eq_of_toNat_eq full)
    have finite : ¬infinityRank < b.toNat % 2 ^ 63 := by omega
    split
    · split <;> exact iff_of_false (by simp [UnpackedFloat.isNaN]) finite
    · exact iff_of_false (by simp [UnpackedFloat.isNaN]) finite

/-! ## Doubles taken apart -/

namespace Binary64

lemma ofFloat_eq (x : Float) : ofFloat x =
    if x.toBits.toNat % 2 ^ 63 < infinityRank then
      .finite (decide (2 ^ 63 ≤ x.toBits.toNat)) (x.toBits.toNat % 2 ^ 63)
    else if x.toBits.toNat % 2 ^ 63 = infinityRank then .infinite (decide (2 ^ 63 ≤ x.toBits.toNat))
    else .nan := rfl

/-- Sign and rank are those of the bits. -/
lemma ofFloat_cases (x : Float) :
    (∃ negative rank, ofFloat x = .finite negative rank ∧ rank < infinityRank ∧
        x.toBits.toNat = rank + if negative then 2 ^ 63 else 0) ∨
      (∃ negative, ofFloat x = .infinite negative ∧
        x.toBits.toNat = infinityRank + if negative then 2 ^ 63 else 0) ∨
      ofFloat x = .nan ∧ x.isNaN = true := by
  have bound := x.toBits.toNat_lt
  have signed : x.toBits.toNat = x.toBits.toNat % 2 ^ 63 + if decide (2 ^ 63 ≤ x.toBits.toNat) then 2 ^ 63 else 0 := by
    split
    · next negative =>
      have := of_decide_eq_true negative
      omega
    · next positive =>
      have := of_decide_eq_false (Bool.eq_false_iff.2 positive)
      omega
  rw [ofFloat_eq]
  split
  · next finite => exact .inl ⟨_, _, rfl, finite, signed⟩
  · split
    · next infinite => exact .inr (.inl ⟨_, rfl, infinite ▸ signed⟩)
    · exact .inr (.inr ⟨rfl, (isNaN_iff x).2 (by omega)⟩)

/-- Two doubles that come apart into the same parts have the same bits, if they are numbers. -/
lemma ofFloat_eq_iff (x y : Float) :
    ofFloat x = ofFloat y ↔ x.toBits = y.toBits ∨ x.isNaN = true ∧ y.isNaN = true := by
  refine ⟨fun same => ?_, ?_⟩
  · rcases ofFloat_cases x with ⟨sx, rx, px, -, bx⟩ | ⟨sx, px, bx⟩ | ⟨px, nx⟩ <;>
      rcases ofFloat_cases y with ⟨sy, ry, py, -, bY⟩ | ⟨sy, py, bY⟩ | ⟨py, ny⟩ <;>
      rw [px, py] at same <;> simp only [Binary64.finite.injEq, Binary64.infinite.injEq, reduceCtorEq] at same
    · obtain ⟨rfl, rfl⟩ := same
      exact .inl (UInt64.toNat.inj (bx.trans bY.symm))
    · obtain rfl := same
      exact .inl (UInt64.toNat.inj (bx.trans bY.symm))
    · exact .inr ⟨nx, ny⟩
  · rintro (same | ⟨nx, ny⟩)
    · rw [ofFloat_eq, ofFloat_eq, same]
    · have beyond := (isNaN_iff x).1 nx
      have beyond' := (isNaN_iff y).1 ny
      rw [ofFloat_eq, ofFloat_eq, if_neg (by omega), if_neg (by omega), if_neg (by omega), if_neg (by omega)]

end Binary64

end Lox.Decimal
