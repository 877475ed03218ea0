import Lox.Decimal.Literal
import Lox.Decimal.Shortest
import Mathlib

/-!
# Rounding to doubles

A ratio lies in the interval of one rank and of no other, midpoints included where the rank is even
(`Interval.Contains.rank_le`), and `nearestRank` finds this rank (`nearestRank_eq_iff`).  So a literal stands
for the double of a rank if and only if its ratio is in the interval of that rank; in particular the
larger of two ratios never has the smaller rank (`nearestRank_mono`).  It is the double nearest to the ratio
(`isNearest_nearestRank`).

Ratios are counted in units of 2⁻¹⁰⁷⁴, as doubles are.  Two neighbouring doubles are `ulp` apart
(`units_succ`), and all that is needed of `units` follows from that.
-/

namespace Lox.Decimal

/-! ## Doubles in order -/

/-- The distance from the double of a rank to the next larger one. -/
def ulp (rank : Nat) : Nat := 2 ^ (rank / 2 ^ 52 - 1)

lemma ulp_pos (rank : Nat) : 0 < ulp rank := Nat.two_pow_pos _

lemma units_eq (rank : Nat) : units rank =
    if rank / 2 ^ 52 = 0 then rank % 2 ^ 52
    else (2 ^ 52 + rank % 2 ^ 52) * 2 ^ (rank / 2 ^ 52 - 1) := by
  simp only [units, Nat.shiftRight_eq_div_pow, Nat.shiftLeft_eq, Nat.one_mul]

/-- The double of a significand with a leading bit, or of one that is small enough to have none.  The
significand that is one too large for its binade is the first one of the next. -/
lemma units_binade {s m : Nat} (leading : s = 0 ∨ 2 ^ 52 ≤ m) (fits : m ≤ 2 ^ 53) :
    units (s * 2 ^ 52 + m) = m * 2 ^ s := by
  rw [units_eq]
  rcases Nat.lt_or_ge m (2 ^ 52) with small | normal
  · obtain rfl : s = 0 := by omega
    rw [if_pos (by omega)]
    omega
  · rcases Nat.lt_or_eq_of_le fits with inside | rfl
    · have exponent : (s * 2 ^ 52 + m) / 2 ^ 52 = s + 1 := by omega
      have fraction : (s * 2 ^ 52 + m) % 2 ^ 52 = m - 2 ^ 52 := by omega
      rw [if_neg (by omega), exponent, fraction, Nat.add_sub_cancel, Nat.add_sub_cancel' normal]
    · have exponent : (s * 2 ^ 52 + 2 ^ 53) / 2 ^ 52 = s + 2 := by omega
      have fraction : (s * 2 ^ 52 + 2 ^ 53) % 2 ^ 52 = 0 := by omega
      have carry : s + 2 - 1 = s + 1 := rfl
      rw [if_neg (by omega), exponent, fraction, carry, Nat.add_zero, Nat.pow_succ 2 s]
      ring

lemma units_succ (rank : Nat) : units (rank + 1) = units rank + ulp rank := by
  rcases Nat.eq_zero_or_pos (rank / 2 ^ 52) with low | high
  · have this := units_binade (s := 0) (m := rank) (.inl rfl) (by omega)
    have next := units_binade (s := 0) (m := rank + 1) (.inl rfl) (by omega)
    simp only [Nat.zero_mul, Nat.zero_add, Nat.pow_zero, Nat.mul_one] at this next
    rw [this, next, ulp, low, Nat.zero_sub, Nat.pow_zero]
  · obtain ⟨s, exponent⟩ := Nat.exists_eq_add_one.2 high
    have split : rank = s * 2 ^ 52 + (2 ^ 52 + rank % 2 ^ 52) := by
      have := Nat.div_add_mod rank (2 ^ 52)
      omega
    have this := units_binade (s := s) (m := 2 ^ 52 + rank % 2 ^ 52) (.inr (by omega)) (by omega)
    have next := units_binade (s := s) (m := 2 ^ 52 + rank % 2 ^ 52 + 1) (.inr (by omega)) (by omega)
    rw [← split] at this
    rw [← Nat.add_assoc, ← split] at next
    rw [this, next, ulp, exponent, Nat.add_sub_cancel]
    ring

/-- Doubles grow with their ranks. -/
lemma units_strictMono : StrictMono units := by
  refine strictMono_nat_of_lt_succ fun rank => ?_
  rw [units_succ]
  exact Nat.lt_add_of_pos_right (ulp_pos rank)

/-! ## Intervals -/

/-- The interval holds a number of units. -/
def Interval.Contains (i : Interval) (q : ℚ) : Prop :=
  if i.closed then i.low ≤ 2 * q ∧ 2 * q ≤ i.high else i.low < 2 * q ∧ 2 * q < i.high

namespace Interval.Contains

variable {i : Interval} {q q' : ℚ} {r r' : Nat}

lemma low_le (inside : i.Contains q) : (i.low : ℚ) ≤ 2 * q := by
  unfold Contains at inside
  split at inside
  · exact inside.1
  · exact inside.1.le

lemma le_high (inside : i.Contains q) : 2 * q ≤ i.high := by
  unfold Contains at inside
  split at inside
  · exact inside.2
  · exact inside.2.le

/-- An end point is held by a closed interval only. -/
lemma closed_of_end (inside : i.Contains q) (ends : 2 * q = i.low ∨ 2 * q = i.high) : i.closed = true := by
  unfold Contains at inside
  split at inside
  · next closed => exact closed
  · rcases ends with low | high
    · exact absurd low inside.1.ne'
    · exact absurd high inside.2.ne

lemma of_lt (above : (i.low : ℚ) < 2 * q) (below : 2 * q < i.high) : i.Contains q := by
  unfold Contains
  split
  · exact ⟨above.le, below.le⟩
  · exact ⟨above, below⟩

/-- Between two numbers of an interval there are only numbers of the interval. -/
lemma between {q'' : ℚ} (inside : i.Contains q) (inside' : i.Contains q'') (above : q ≤ q') (below : q' ≤ q'') :
    i.Contains q' := by
  unfold Contains at inside inside' ⊢
  split at inside
  · next closed =>
    rw [if_pos closed] at inside' ⊢
    exact ⟨by linarith [inside.1], by linarith [inside'.2]⟩
  · next opened =>
    rw [if_neg opened] at inside' ⊢
    exact ⟨by linarith [inside.1], by linarith [inside'.2]⟩

/-- The intervals of two ranks have at most a midpoint in common, and that belongs to one of them only. -/
theorem rank_le (inside : (ofRank r).Contains q) (inside' : (ofRank r').Contains q') (le : q ≤ q') : r ≤ r' := by
  by_contra! less
  have first : units (r' + 1) ≤ units r := units_strictMono.monotone less
  have second : units r' ≤ units (r - 1) := units_strictMono.monotone (by omega)
  have ordered : ((ofRank r').high : ℚ) ≤ (ofRank r).low := by
    show ((units r' + units (r' + 1) : Nat) : ℚ) ≤ ((units (r - 1) + units r : Nat) : ℚ)
    exact_mod_cast Nat.add_le_add second first
  have low := inside.low_le
  have high := inside'.le_high
  -- Both numbers are the one midpoint, so the two ranks are even and next to each other.
  have even : r % 2 = 0 := of_decide_eq_true (inside.closed_of_end (.inl (by linarith)))
  have even' : r' % 2 = 0 := of_decide_eq_true (inside'.closed_of_end (.inr (by linarith)))
  have apart : units (r' + 1) < units r := units_strictMono (by omega)
  have strict : ((ofRank r').high : ℚ) < (ofRank r).low := by
    show ((units r' + units (r' + 1) : Nat) : ℚ) < ((units (r - 1) + units r : Nat) : ℚ)
    exact_mod_cast Nat.add_lt_add_of_le_of_lt second apart
  linarith

/-- The double of a rank is in its interval. -/
lemma self (pos : 0 < r) : (ofRank r).Contains (units r) := by
  have below : units (r - 1) < units r := units_strictMono (by omega)
  have above : units r < units (r + 1) := units_strictMono (Nat.lt_succ_self r)
  refine of_lt ?_ ?_
  · show ((units (r - 1) + units r : Nat) : ℚ) < 2 * units r
    exact_mod_cast (by omega : units (r - 1) + units r < 2 * units r)
  · show 2 * (units r : ℚ) < ((units r + units (r + 1) : Nat) : ℚ)
    exact_mod_cast (by omega : 2 * units r < units r + units (r + 1))

end Interval.Contains

/-- Whether a ratio is in an interval can be told with whole numbers. -/
lemma Interval.contains_div_iff (i : Interval) (n : Nat) {den : Nat} (pos : 0 < den) :
    i.Contains (n / den) ↔
      if i.closed then i.low * den ≤ 2 * n ∧ 2 * n ≤ i.high * den else i.low * den < 2 * n ∧ 2 * n < i.high * den := by
  have posQ : (0 : ℚ) < den := by exact_mod_cast pos
  have twice : (2 * (n / den) : ℚ) = ((2 * n : Nat) : ℚ) / den := by
    push_cast
    ring
  unfold Contains
  rw [twice, le_div_iff₀ posQ, div_le_iff₀ posQ, lt_div_iff₀ posQ, div_lt_iff₀ posQ]
  norm_cast

/-! ## Literals -/

/-- Rounding leaves at most a half, and a half only if it rounds to an even number. -/
lemma roundHalfEven_near (num : Nat) {den : Nat} (pos : 0 < den) :
    2 * num ≤ 2 * (roundHalfEven num den * den) + den ∧ 2 * (roundHalfEven num den * den) ≤ 2 * num + den ∧
      (2 * num = 2 * (roundHalfEven num den * den) + den ∨ 2 * (roundHalfEven num den * den) = 2 * num + den →
        roundHalfEven num den % 2 = 0) := by
  have whole := Nat.div_add_mod' num den
  have rest := Nat.mod_lt num pos
  have next : (num / den + 1) * den = num / den * den + den := Nat.succ_mul _ _
  unfold roundHalfEven
  dsimp only
  split
  · exact ⟨by omega, by omega, fun half => by omega⟩
  · split
    · rw [next]
      exact ⟨by omega, by omega, fun half => by omega⟩
    · split
      · next even => exact ⟨by omega, by omega, fun _ => even⟩
      · next odd =>
        rw [next]
        exact ⟨by omega, by omega, fun _ => by omega⟩

/-- The ratio of a literal in units. -/
def unitsOf (num den : Nat) : ℚ := ((num <<< 1074 : Nat) : ℚ) / den

/-- The rank before it is bounded by that of infinity. -/
def unboundedRank (num den : Nat) : Nat :=
  let shift := ((num <<< 1074) / den).log2 - 52
  shift * 2 ^ 52 + roundHalfEven (num <<< 1074) (den <<< shift)

lemma nearestRank_eq_min (num den : Nat) : nearestRank num den = min (unboundedRank num den) infinityRank := by
  unfold nearestRank unboundedRank
  dsimp only
  rw [Nat.shiftLeft_eq _ 52]

/-- The shift leaves a whole part of 53 bits, or of less if there are no more. -/
lemma shift_bounds (n : Nat) {den : Nat} (pos : 0 < den) :
    ((n / den).log2 - 52 = 0 ∨ 2 ^ 52 * (den * 2 ^ ((n / den).log2 - 52)) ≤ n) ∧
      n < 2 ^ 53 * (den * 2 ^ ((n / den).log2 - 52)) := by
  generalize shift : (n / den).log2 - 52 = s
  have least : s = 0 ∨ 2 ^ (52 + s) ≤ n / den := by
    rcases Nat.eq_zero_or_pos s with none | some
    · exact .inl none
    · have large : n / den ≠ 0 := by
        rintro zero
        rw [zero, Nat.log2_zero] at shift
        omega
      exact .inr ((Nat.le_log2 large).1 (by omega))
  have most : n / den < 2 ^ (53 + s) := Nat.lt_log2_self.trans_le (Nat.pow_le_pow_right (by decide) (by omega))
  refine ⟨least.imp_right fun le => ?_, ?_⟩
  · calc 2 ^ 52 * (den * 2 ^ s) = 2 ^ (52 + s) * den := by ring
      _ ≤ n := (Nat.le_div_iff_mul_le pos).1 le
  · calc n < 2 ^ (53 + s) * den := (Nat.div_lt_iff_lt_mul pos).1 most
      _ = 2 ^ 53 * (den * 2 ^ s) := by ring

section Significand

variable {s m : Nat}

lemma two_pow_le_ulp (leading : s = 0 ∨ 2 ^ 52 ≤ m) : 2 ^ s ≤ ulp (s * 2 ^ 52 + m) :=
  Nat.pow_le_pow_right (by decide) (by omega)

/-- Only below the first significand of a binade is the distance smaller than above. -/
lemma ulp_pred (inner : s = 0 ∨ 2 ^ 52 < m) (fits : m ≤ 2 ^ 53) (pos : 0 < m) :
    ulp (s * 2 ^ 52 + m - 1) = 2 ^ s := by
  unfold ulp
  congr 1
  omega

/-- The end of an interval is at least half a step of the binade away. -/
lemma le_high_ofRank (leading : s = 0 ∨ 2 ^ 52 ≤ m) (fits : m ≤ 2 ^ 53) :
    2 * (m * 2 ^ s) + 2 ^ s ≤ (Interval.ofRank (s * 2 ^ 52 + m)).high := by
  have step := two_pow_le_ulp leading
  show _ ≤ units (s * 2 ^ 52 + m) + units (s * 2 ^ 52 + m + 1)
  rw [units_succ, units_binade leading fits]
  omega

/-- So is its start, except below the first double of a binade. -/
lemma low_ofRank_le (leading : s = 0 ∨ 2 ^ 52 ≤ m) (fits : m ≤ 2 ^ 53) (pos : 0 < m) :
    (Interval.ofRank (s * 2 ^ 52 + m)).low + 2 ^ s ≤ 2 * (m * 2 ^ s) ∨
      s ≠ 0 ∧ m = 2 ^ 52 ∧ (Interval.ofRank (s * 2 ^ 52 + m)).low < 2 * (m * 2 ^ s) := by
  have step := units_succ (s * 2 ^ 52 + m - 1)
  rw [Nat.sub_add_cancel (by omega), units_binade leading fits] at step
  have low : (Interval.ofRank (s * 2 ^ 52 + m)).low = units (s * 2 ^ 52 + m - 1) + m * 2 ^ s :=
    congrArg (_ + ·) (units_binade leading fits)
  by_cases inner : s = 0 ∨ 2 ^ 52 < m
  · rw [ulp_pred inner fits pos] at step
    exact .inl (by omega)
  · have some := ulp_pos (s * 2 ^ 52 + m - 1)
    exact .inr ⟨by omega, by omega, by omega⟩

end Significand

/-- Rounding a ratio finds a rank whose interval it is in. -/
lemma contains_unboundedRank (num : Nat) {den : Nat} (pos : 0 < den) :
    (Interval.ofRank (unboundedRank num den)).Contains (unitsOf num den) := by
  rw [unitsOf, unboundedRank, Interval.contains_div_iff _ _ pos]
  generalize num <<< 1074 = n
  obtain ⟨least, most⟩ := shift_bounds n pos
  generalize (n / den).log2 - 52 = s at least most ⊢
  rw [Nat.shiftLeft_eq]
  obtain ⟨above, below, half⟩ := roundHalfEven_near n (Nat.mul_pos pos (Nat.two_pow_pos s))
  generalize roundHalfEven n (den * 2 ^ s) = m at above below half ⊢
  have leading : s = 0 ∨ 2 ^ 52 ≤ m := by
    refine least.imp_right fun least => ?_
    by_contra! small
    have := Nat.mul_le_mul_right (den * 2 ^ s) (Nat.succ_le_of_lt small)
    rw [Nat.succ_mul] at this
    omega
  have fits : m ≤ 2 ^ 53 := by
    by_contra! large
    have := Nat.mul_le_mul_right (den * 2 ^ s) (Nat.succ_le_of_lt large)
    rw [Nat.succ_mul] at this
    omega
  have scaled : ∀ k, k * 2 ^ s * den = k * (den * 2 ^ s) := fun k => by ring
  have high : 2 * (m * (den * 2 ^ s)) + den * 2 ^ s ≤ (Interval.ofRank (s * 2 ^ 52 + m)).high * den := by
    have ends := Nat.mul_le_mul_right den (le_high_ofRank leading fits)
    rwa [Nat.add_mul, Nat.mul_assoc 2, scaled, Nat.mul_comm (2 ^ s)] at ends
  have low : (Interval.ofRank (s * 2 ^ 52 + m)).low * den = 0 ∧ m = 0 ∨
      (Interval.ofRank (s * 2 ^ 52 + m)).low * den + den * 2 ^ s ≤ 2 * (m * (den * 2 ^ s)) ∨
        (Interval.ofRank (s * 2 ^ 52 + m)).low * den < 2 * (m * (den * 2 ^ s)) ∧ m * (den * 2 ^ s) ≤ n := by
    rcases Nat.eq_zero_or_pos m with rfl | some
    · obtain rfl : s = 0 := by omega
      exact .inl ⟨Nat.zero_mul den, rfl⟩
    · rcases low_ofRank_le leading fits some with starts | ⟨shifted, rfl, starts⟩
      · have starts := Nat.mul_le_mul_right den starts
        rw [Nat.add_mul, Nat.mul_assoc 2, scaled, Nat.mul_comm (2 ^ s)] at starts
        exact .inr (.inl starts)
      · have starts := Nat.mul_lt_mul_of_pos_right starts pos
        rw [Nat.mul_assoc 2, scaled] at starts
        exact .inr (.inr ⟨starts, least.resolve_left shifted⟩)
  have closed : (Interval.ofRank (s * 2 ^ 52 + m)).closed = decide (m % 2 = 0) := by
    show decide ((s * 2 ^ 52 + m) % 2 = 0) = _
    congr 1
    simp only [eq_iff_iff]
    omega
  rw [closed]
  by_cases even : m % 2 = 0
  · rw [if_pos (decide_eq_true even)]
    exact ⟨by omega, by omega⟩
  · rw [if_neg (by simpa using even)]
    exact ⟨by omega, by omega⟩

/-- A ratio has the rank whose interval it is in, or that of infinity if that is smaller. -/
lemma nearestRank_of_contains {num den r : Nat} (pos : 0 < den)
    (inside : (Interval.ofRank r).Contains (unitsOf num den)) : nearestRank num den = min r infinityRank := by
  have inside' := contains_unboundedRank num pos
  rw [nearestRank_eq_min, Nat.le_antisymm (inside'.rank_le inside le_rfl) (inside.rank_le inside' le_rfl)]

/-- A literal is read as the double of a rank if and only if its ratio is in the interval of the rank. -/
theorem nearestRank_eq_iff {num den r : Nat} (pos : 0 < den) (finite : r < infinityRank) :
    nearestRank num den = r ↔ (Interval.ofRank r).Contains (unitsOf num den) := by
  refine ⟨fun same => ?_, fun inside => ?_⟩
  · rw [nearestRank_eq_min] at same
    obtain rfl : unboundedRank num den = r := by omega
    exact contains_unboundedRank num pos
  · rw [nearestRank_of_contains pos inside]
    exact Nat.min_eq_left finite.le

/-- The larger of two ratios never has the smaller rank. -/
theorem nearestRank_mono {num den num' den' : Nat} (pos : 0 < den) (pos' : 0 < den')
    (le : unitsOf num den ≤ unitsOf num' den') : nearestRank num den ≤ nearestRank num' den' := by
  rw [nearestRank_eq_min, nearestRank_eq_min]
  exact min_le_min_right _ ((contains_unboundedRank num pos).rank_le (contains_unboundedRank num' pos') le)

/-! ## The nearest double -/

/-- The rank whose double is nearest to a number of units, and the even one of two that are equally near.  Infinity
counts as the power of two after the largest double. -/
structure IsNearest (q : ℚ) (rank : Nat) : Prop where
  bounded : rank ≤ infinityRank
  nearest : ∀ other ≤ infinityRank, |q - units rank| ≤ |q - units other|
  even : ∀ other ≤ infinityRank, other ≠ rank → |q - units rank| = |q - units other| → rank % 2 = 0

namespace IsNearest

variable {q : ℚ} {r r' : Nat}

/-- A number in the interval of a double is at least as near to it as to any smaller one. -/
lemma nearer_below (inside : (Interval.ofRank r).Contains q) (less : r' < r) :
    |q - units r| ≤ |q - units r'| ∧ (|q - units r| = |q - units r'| → r % 2 = 0) := by
  have before : units r' ≤ units (r - 1) := units_strictMono.monotone (by omega)
  have below : units r' < units r := units_strictMono less
  have low : (Interval.ofRank r).low = units (r - 1) + units r := rfl
  have least := inside.low_le
  have closed := inside.closed_of_end
  qify at before below low
  have away : |q - units r'| = q - units r' := abs_of_nonneg (by linarith)
  rw [away, abs_le]
  refine ⟨⟨by linarith, by linarith⟩, fun same => of_decide_eq_true (closed (.inl ?_))⟩
  rcases abs_choice (q - units r) with above | below <;> linarith

/-- It is at least as near to it as to any larger one. -/
lemma nearer_above (inside : (Interval.ofRank r).Contains q) (less : r < r') :
    |q - units r| ≤ |q - units r'| ∧ (|q - units r| = |q - units r'| → r % 2 = 0) := by
  have after : units (r + 1) ≤ units r' := units_strictMono.monotone less
  have above : units r < units r' := units_strictMono less
  have high : (Interval.ofRank r).high = units r + units (r + 1) := rfl
  have most := inside.le_high
  have closed := inside.closed_of_end
  qify at after above high
  have away : |q - units r'| = units r' - q := by rw [abs_sub_comm, abs_of_nonneg (by linarith)]
  rw [away, abs_le]
  refine ⟨⟨by linarith, by linarith⟩, fun same => of_decide_eq_true (closed (.inr ?_))⟩
  rcases abs_choice (q - units r) with above | below <;> linarith

/-- The double of an interval is nearest to the numbers in it. -/
lemma of_contains (inside : (Interval.ofRank r).Contains q) (bounded : r ≤ infinityRank) : IsNearest q r := by
  have nearer : ∀ other ≠ r, |q - units r| ≤ |q - units other| ∧
      (|q - units r| = |q - units other| → r % 2 = 0) := fun other different =>
    (Nat.lt_or_gt_of_ne different).elim (nearer_below inside) (nearer_above inside)
  refine ⟨bounded, fun other _ => ?_, fun other _ different => (nearer other different).2⟩
  by_cases same : other = r
  · rw [same]
  · exact (nearer other same).1

/-- What is larger than the power of two after the largest double is rounded to infinity. -/
lemma infinite (large : (units infinityRank : ℚ) < q) : IsNearest q infinityRank := by
  have away : ∀ other ≤ infinityRank, |q - units other| = q - units other := by
    intro other bounded
    have le : (units other : ℚ) ≤ units infinityRank := by exact_mod_cast units_strictMono.monotone bounded
    exact abs_of_nonneg (by linarith)
  refine ⟨le_rfl, fun other bounded => ?_, fun other bounded different same => ?_⟩
  · have le : (units other : ℚ) ≤ units infinityRank := by exact_mod_cast units_strictMono.monotone bounded
    rw [away _ le_rfl, away other bounded]
    linarith
  · rw [away _ le_rfl, away other bounded] at same
    have same : (units other : ℚ) = units infinityRank := by linarith
    exact absurd (units_strictMono.injective (by exact_mod_cast same)) different

lemma le (first : IsNearest q r) (second : IsNearest q r') : r' ≤ r := by
  by_contra! less
  have same := le_antisymm (first.nearest r' second.bounded) (second.nearest r first.bounded)
  have even := first.even r' second.bounded less.ne' same
  have even' := second.even r first.bounded less.ne same.symm
  have between := first.nearest (r + 1) (by have := second.bounded; omega)
  have lower : (units r : ℚ) < units (r + 1) := by exact_mod_cast units_strictMono (Nat.lt_succ_self r)
  have upper : (units (r + 1) : ℚ) < units r' := by exact_mod_cast units_strictMono (by omega)
  -- The number is in the middle of the two, so what lies between them is nearer.
  have middle : q - units r = units r' - q := by
    rcases abs_eq_abs.1 same with same | same <;> linarith
  rw [abs_of_nonneg (show 0 ≤ q - units r by linarith)] at between
  rcases abs_choice (q - units (r + 1)) with above | below <;> linarith

lemma unique (first : IsNearest q r) (second : IsNearest q r') : r = r' :=
  Nat.le_antisymm (second.le first) (first.le second)

end IsNearest

/-- Literals are rounded correctly. -/
theorem isNearest_nearestRank (num : Nat) {den : Nat} (pos : 0 < den) :
    IsNearest (unitsOf num den) (nearestRank num den) := by
  have inside := contains_unboundedRank num pos
  rw [nearestRank_eq_min]
  generalize unboundedRank num den = r at inside ⊢
  rcases Nat.lt_or_ge infinityRank r with large | bounded
  · rw [Nat.min_eq_right large.le]
    refine .infinite ?_
    have low := inside.low_le
    have start : (Interval.ofRank r).low = units (r - 1) + units r := rfl
    have before : units infinityRank ≤ units (r - 1) := units_strictMono.monotone (by omega)
    have below : units infinityRank < units r := units_strictMono large
    qify at start before below
    linarith
  · rw [Nat.min_eq_left bounded]
    exact .of_contains inside bounded

end Lox.Decimal
