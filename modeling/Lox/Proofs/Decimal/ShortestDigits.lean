import Lox.Proofs.Decimal.Rounding

/-!
# The shortest decimal

The decimal that `shortest` finds for a double is in the interval of the double (`shortest_contains`).
The search goes from coarse grids to fine ones and takes the first point it finds; the last grid it may
come to has the double itself on it, so it never ends without a point. Since it goes from the coarsest
grid on, no decimal that is read as the double has fewer digits than the one it finds (`length_shortest_le`).
-/

namespace Lox.Decimal

namespace Interval

variable {i : Interval} {place : Int} {c : Nat}

lemma gridDen_pos (place : Int) : 0 < gridDen place := Nat.pow_pos (by decide)

/-- The decimal `c · 10 ^ place` in units. -/
def point (place : Int) (c : Nat) : ℚ := unitsOf (c * gridNum place) (gridDen place)

/-- The search looks for decimals in the interval. -/
lemma holds_iff : i.holds place c = true ↔ i.Contains (point place c) := by
  rw [point, unitsOf, contains_div_iff _ _ (gridDen_pos place), ← Nat.shiftLeft_succ, holds]
  split <;> simp

lemma holds_of_gridPoint? (found : i.gridPoint? place = some c) : i.holds place c = true := by
  unfold gridPoint? at found
  dsimp only at found
  split at found
  · next below above =>
    obtain rfl := Option.some.inj found
    split
    · exact below
    · exact above
  · next below _ => exact Option.some.inj found ▸ below
  · next _ above => exact Option.some.inj found ▸ above
  · cases found

/-- If the search finds a point on the last grid it may come to, it finds one. -/
lemma holds_search (i : Interval) {fuel : Nat} {place : Int}
    (last : i.holds (place - fuel) (i.search 0 (place - fuel)).1 = true) :
    i.holds (i.search fuel place).2 (i.search fuel place).1 = true := by
  induction fuel generalizing place with
  | zero =>
    rw [Nat.cast_zero, sub_zero] at last
    exact last
  | succ fuel ih =>
    rw [search]
    split
    · next found => exact holds_of_gridPoint? found
    · refine ih ?_
      have same : place - 1 - (fuel : Int) = place - ((fuel + 1 : Nat) : Int) := by push_cast; ring
      rwa [same]

/-- A whole number over a power of two is a decimal with as many places. -/
lemma exact_div (n k : Nat) : n * Nat.pow 10 k / 1 <<< k = n * 5 ^ k := by
  have ten : Nat.pow 10 k = 5 ^ k * 2 ^ k := Nat.mul_pow 5 2 k
  rw [Nat.shiftLeft_eq, Nat.one_mul, ten, ← Nat.mul_assoc, Nat.mul_div_cancel _ (Nat.two_pow_pos k)]

lemma exact_units (n k : Nat) : (((2 * n * 5 ^ (k + 1)) <<< k : Nat) : ℚ) / (Nat.pow 10 (k + 1) : Nat) = n := by
  have ten : Nat.pow 10 (k + 1) = 5 ^ (k + 1) * 2 ^ (k + 1) := Nat.mul_pow 5 2 (k + 1)
  have whole : (2 * n * 5 ^ (k + 1)) <<< k = n * Nat.pow 10 (k + 1) := by
    rw [Nat.shiftLeft_eq, ten]
    ring
  have pos : ((Nat.pow 10 (k + 1) : Nat) : ℚ) ≠ 0 := Nat.cast_ne_zero.2 (Nat.pow_pos (by decide)).ne'
  rw [whole, Nat.cast_mul, mul_div_cancel_right₀ _ pos]

lemma gridNum_neg (k : Nat) : gridNum (-(k : Int)) = 1 := by
  simp [gridNum]

lemma gridDen_neg (k : Nat) : gridDen (-(k : Int)) = Nat.pow 10 k := by
  simp [gridDen]

/-- Every double is on the grid of 10⁻¹⁰⁷⁵. -/
lemma holds_finest {rank k : Nat} (pos : 0 < rank) (finest : k + 1 = 1075) :
    (ofRank rank).holds (-((k + 1 : Nat) : Int)) ((ofRank rank).search 0 (-((k + 1 : Nat) : Int))).1 = true := by
  have digits : ((ofRank rank).search 0 (-((k + 1 : Nat) : Int))).1 = 2 * units rank * 5 ^ (k + 1) := by
    show 2 * units rank * gridDen _ / gridNum _ <<< 1075 = _
    rw [gridNum_neg, gridDen_neg, ← finest, exact_div]
  have value : point (-((k + 1 : Nat) : Int)) (2 * units rank * 5 ^ (k + 1)) = units rank := by
    obtain rfl : k = 1074 := by omega
    rw [point, unitsOf, gridNum_neg, gridDen_neg, Nat.mul_one]
    exact exact_units (units rank) 1074
  rw [holds_iff, digits, value]
  exact Contains.self pos

end Interval

/-- The search begins above the finest grid. -/
lemma placeAbove_ge (rank : Nat) : -1075 ≤ placeAbove rank := by
  unfold placeAbove
  omega

/-- The shortest decimal of a double is in the interval of the double. -/
lemma shortest_contains {rank : Nat} (pos : 0 < rank) :
    (Interval.ofRank rank).Contains (Interval.point (shortest rank).2 (shortest rank).1) := by
  have enough := placeAbove_ge rank
  have last : placeAbove rank - ((placeAbove rank + 1075).toNat : Int) = -((1074 + 1 : Nat) : Int) := by omega
  refine Interval.holds_iff.1 (Interval.holds_search _ ?_)
  rw [last]
  exact Interval.holds_finest pos rfl

/-- The shortest decimal of a double is read as the double. -/
theorem nearestRank_shortest {rank : Nat} (pos : 0 < rank) (finite : rank < infinityRank) :
    nearestRank ((shortest rank).1 * Interval.gridNum (shortest rank).2) (Interval.gridDen (shortest rank).2) = rank :=
  (nearestRank_eq_iff (Interval.gridDen_pos _) finite).2 (shortest_contains pos)

/-- There are only positive numbers in the interval of a positive double. -/
lemma pos_of_contains {rank c : Nat} {place : Int} (pos : 0 < rank)
    (inside : (Interval.ofRank rank).Contains (Interval.point place c)) : 0 < c := by
  refine Nat.pos_of_ne_zero fun zero => ?_
  have low := inside.low_le
  rw [zero, Interval.point, unitsOf, Nat.zero_mul, Nat.zero_shiftLeft, Nat.cast_zero, zero_div, mul_zero] at low
  have some : 0 < units rank := Nat.zero_le (units 0) |>.trans_lt (units_strictMono pos)
  have least : 0 < (Interval.ofRank rank).low := Nat.add_pos_right _ some
  exact absurd least (by exact_mod_cast low.not_gt)

lemma shortest_pos {rank : Nat} (pos : 0 < rank) : 0 < (shortest rank).1 := pos_of_contains pos (shortest_contains pos)

/-! ## Powers of ten -/

/-- The power of ten of the first digit of a decimal. -/
def leadingPlace (place : Int) (c : Nat) : Int := place + (Nat.toDigits 10 c).length - 1

lemma gridNum_div_gridDen (place : Int) :
    (Interval.gridNum place / Interval.gridDen place : ℚ) = 10 ^ place := by
  have num : (Interval.gridNum place : ℚ) = 10 ^ place.toNat := Nat.cast_pow 10 _
  have den : (Interval.gridDen place : ℚ) = 10 ^ (-place).toNat := Nat.cast_pow 10 _
  rw [num, den, ← zpow_natCast, ← zpow_natCast, ← zpow_sub₀ (by norm_num)]
  congr 1
  omega

lemma point_eq (place : Int) (c : Nat) : Interval.point place c = c * 10 ^ place * 2 ^ 1074 := by
  have value : ∀ k : Nat, (((c * Interval.gridNum place) <<< k : Nat) : ℚ) / Interval.gridDen place =
      c * 10 ^ place * 2 ^ k := by
    intro k
    rw [← gridNum_div_gridDen, Nat.shiftLeft_eq]
    push_cast
    ring
  exact value 1074

/-- Decimals are ordered by their values. -/
lemma point_le {place place' : Int} {c c' : Nat} (le : (c * 10 ^ place : ℚ) ≤ c' * 10 ^ place') :
    Interval.point place c ≤ Interval.point place' c' := by
  rw [point_eq, point_eq]
  exact mul_le_mul_of_nonneg_right le (by positivity)

section Leading

variable {place e : Int} {c : Nat}

/-- A decimal is at least the power of ten of its first digit. -/
lemma pow_le_point (pos : 0 < c) (le : e ≤ leadingPlace place c) : Interval.point e 1 ≤ Interval.point place c := by
  have long : 10 ^ ((Nat.toDigits 10 c).length - 1) ≤ c := by
    rcases Nat.eq_zero_or_pos ((Nat.toDigits 10 c).length - 1) with one | more
    · rw [one]
      exact pos
    · by_contra! less
      have := (Nat.length_toDigits_le_iff (by decide) more).2 less
      omega
  have some : 0 < (Nat.toDigits 10 c).length := Nat.length_toDigits_pos
  unfold leadingPlace at le
  generalize (Nat.toDigits 10 c).length = len at le long some
  refine point_le ?_
  calc ((1 : Nat) * 10 ^ e : ℚ) = 10 ^ e := by simp
    _ ≤ 10 ^ (((len - 1 : Nat) : Int) + place) := zpow_le_zpow_right₀ (by norm_num) (by omega)
    _ = 10 ^ (len - 1) * 10 ^ place := by rw [zpow_add₀ (by norm_num), zpow_natCast]
    _ ≤ c * 10 ^ place := by
      refine mul_le_mul_of_nonneg_right ?_ (by positivity)
      exact_mod_cast long

/-- A decimal is at most the next power of ten. -/
lemma point_le_pow (lt : leadingPlace place c < e) : Interval.point place c ≤ Interval.point e 1 := by
  have short : c < 10 ^ (Nat.toDigits 10 c).length :=
    (Nat.length_toDigits_le_iff (by decide) Nat.length_toDigits_pos).1 (Nat.le_refl _)
  unfold leadingPlace at lt
  generalize (Nat.toDigits 10 c).length = len at lt short
  refine point_le ?_
  calc (c * 10 ^ place : ℚ) ≤ 10 ^ len * 10 ^ place := by
        refine mul_le_mul_of_nonneg_right ?_ (by positivity)
        exact_mod_cast short.le
    _ = 10 ^ ((len : Int) + place) := by rw [zpow_add₀ (by norm_num), zpow_natCast]
    _ ≤ 10 ^ e := zpow_le_zpow_right₀ (by norm_num) (by omega)
    _ = (1 : Nat) * 10 ^ e := by simp

end Leading

/-- The rank of a power of ten. -/
def powerRank (e : Int) : Nat := nearestRank (1 * Interval.gridNum e) (Interval.gridDen e)

/-- The first digit of a double that is no less than the double of a power of ten stands no lower, if the power is
its own shortest decimal. -/
lemma powerRank_le_iff {rank : Nat} (pos : 0 < rank) (finite : rank < infinityRank) {e : Int}
    (short : shortest (powerRank e) = (1, e)) :
    powerRank e ≤ rank ↔ e ≤ leadingPlace (shortest rank).2 (shortest rank).1 := by
  have same := nearestRank_shortest pos finite
  refine ⟨fun le => ?_, fun le => ?_⟩
  · by_contra! lower
    have smaller := nearestRank_mono (Interval.gridDen_pos _) (Interval.gridDen_pos _) (point_le_pow lower)
    rw [same] at smaller
    obtain rfl : rank = powerRank e := Nat.le_antisymm smaller le
    rw [short] at lower
    exact absurd lower (by simp [leadingPlace])
  · have larger := nearestRank_mono (Interval.gridDen_pos _) (Interval.gridDen_pos _)
      (pow_le_point (shortest_pos pos) le)
    rwa [same] at larger

/-! ## Fewest digits -/

namespace Interval

variable {place : Int} {c rank : Nat}

/-- The search passes only grids that have no point next to the double in the interval. -/
lemma gridPoint?_passed (i : Interval) {fuel : Nat} {start : Int} (below : (i.search fuel start).2 < place)
    (least : place ≤ start) : i.gridPoint? place = none := by
  induction fuel generalizing start with
  | zero => exact absurd least below.not_ge
  | succ fuel ih =>
    rw [search] at below
    split at below
    · exact absurd least below.not_ge
    · next missing =>
      rcases least.lt_or_eq with lower | rfl
      · exact ih below (by omega)
      · exact missing

lemma point_mono {c' : Nat} (le : c ≤ c') : point place c ≤ point place c' :=
  point_le (mul_le_mul_of_nonneg_right (Nat.cast_le.2 le) (by positivity))

/-- The search looks at the two points next to the double. -/
lemma point_next (rank : Nat) (place : Int) :
    point place ((ofRank rank).mid * gridDen place / gridNum place <<< 1075) ≤ units rank ∧
      units rank ≤ point place ((ofRank rank).mid * gridDen place / gridNum place <<< 1075 + 1) := by
  have mid : (ofRank rank).mid * gridDen place = 2 * (units rank * gridDen place) := Nat.mul_assoc _ _ _
  have step := Nat.shiftLeft_succ (gridNum place) 1074
  have positive : ∀ k : Nat, 0 < gridNum place <<< k := fun k => by
    rw [Nat.shiftLeft_eq]
    exact Nat.mul_pos (Nat.pow_pos (by decide)) (Nat.two_pow_pos k)
  have scaled : ∀ c k : Nat, (c * gridNum place) <<< k = c * gridNum place <<< k := fun c k => by
    rw [Nat.shiftLeft_eq, Nat.shiftLeft_eq, Nat.mul_assoc]
  have posQ : (0 : ℚ) < gridDen place := Nat.cast_pos.2 (gridDen_pos place)
  rw [mid, step, Nat.mul_div_mul_left _ _ (by decide : 0 < 2)]
  have below := Nat.div_mul_le_self (units rank * gridDen place) (gridNum place <<< 1074)
  have above := Nat.lt_mul_div_succ (units rank * gridDen place) (positive 1074)
  unfold point unitsOf
  rw [scaled, scaled, div_le_iff₀ posQ, le_div_iff₀ posQ]
  generalize gridNum place <<< 1074 = size at below above ⊢
  rw [Nat.mul_comm size] at above
  exact ⟨by exact_mod_cast below, by exact_mod_cast above.le⟩

/-- A grid with a point in the interval has one next to the double there. -/
lemma gridPoint?_isSome (pos : 0 < rank) (inside : (ofRank rank).Contains (point place c)) :
    ((ofRank rank).gridPoint? place).isSome := by
  have self : (ofRank rank).Contains (units rank) := .self pos
  obtain ⟨below, above⟩ := point_next rank place
  unfold gridPoint?
  dsimp only
  generalize (ofRank rank).mid * gridDen place / gridNum place <<< 1075 = b at below above ⊢
  have next : (ofRank rank).holds place b = true ∨ (ofRank rank).holds place (b + 1) = true := by
    rw [holds_iff, holds_iff]
    rcases Nat.lt_or_ge b c with larger | smaller
    · exact .inr (self.between inside above (point_mono larger))
    · exact .inl (inside.between self (point_mono smaller) below)
  rcases next with found | found <;> rw [found] <;> split <;> simp_all

end Interval

lemma ulp_le_units {rank : Nat} (pos : 0 < rank) : ulp rank ≤ units rank := by
  rw [units_eq, ulp]
  split
  · next low =>
    rw [low]
    show 1 ≤ _
    omega
  · exact Nat.le_mul_of_pos_left _ (by omega)

/-- The place to begin the search at, for a double between two powers of two. -/
lemma pow_placeAbove : ∀ l : Nat, l < 2098 →
    2 ^ (l + 1) * Interval.gridDen (((l : Int) - 1073) * 30103 / 100000 + 1) ≤
      Interval.gridNum (((l : Int) - 1073) * 30103 / 100000 + 1) <<< 1074 := by
  decide +kernel

lemma units_first (s : Nat) : units (s * 2 ^ 52 + 2 ^ 52) = 2 ^ (52 + s) := by
  rw [units_binade (.inr (Nat.le_refl _)) (by decide), Nat.pow_add]

/-- The search begins no lower than where the double is. -/
lemma units_lt_pow {rank : Nat} (finite : rank < infinityRank) :
    (units rank : ℚ) < Interval.point (placeAbove rank) 1 := by
  have length : ∀ k, units infinityRank = 2 ^ (52 + k) → (units rank).log2 < 52 + k := by
    intro k last
    rcases Nat.eq_zero_or_pos (units rank) with zero | some
    · rw [zero, Nat.log2_zero]
      omega
    · exact (Nat.log2_lt some.ne').2 (last ▸ units_strictMono finite)
  have power := pow_placeAbove _ (length _ (units_first 2046))
  have posQ : (0 : ℚ) < Interval.gridDen (placeAbove rank) := Nat.cast_pos.2 (Interval.gridDen_pos _)
  have less := Nat.mul_lt_mul_of_pos_right (Nat.lt_log2_self (n := units rank)) (Interval.gridDen_pos (placeAbove rank))
  unfold Interval.point unitsOf
  rw [Nat.one_mul, lt_div_iff₀ posQ]
  exact_mod_cast less.trans_le power

/-- No decimal that is read as the double is on a coarser grid. -/
lemma place_le_shortest {rank : Nat} (pos : 0 < rank) (finite : rank < infinityRank) {place : Int} {c : Nat}
    (inside : (Interval.ofRank rank).Contains (Interval.point place c)) : place ≤ (shortest rank).2 := by
  by_contra! coarser
  rcases le_or_gt place (placeAbove rank) with searched | above
  · have missing := Interval.gridPoint?_passed _ coarser searched
    have found := Interval.gridPoint?_isSome pos inside
    rw [missing] at found
    cases found
  · have high := inside.le_high
    have least : Interval.point (placeAbove rank + 1) 1 ≤ Interval.point place c := by
      refine point_le ?_
      have one : (1 : ℚ) ≤ c := by exact_mod_cast pos_of_contains pos inside
      calc ((1 : Nat) * 10 ^ (placeAbove rank + 1) : ℚ) = 1 * 10 ^ (placeAbove rank + 1) := by rw [Nat.cast_one]
        _ ≤ c * 10 ^ place := mul_le_mul one (zpow_le_zpow_right₀ (by norm_num) (by omega)) (by positivity)
          (by positivity)
    have tenfold : Interval.point (placeAbove rank + 1) 1 = 10 * Interval.point (placeAbove rank) 1 := by
      rw [point_eq, point_eq, zpow_add_one₀ (by norm_num), Nat.cast_one, one_mul, one_mul, mul_comm _ 10, mul_assoc]
    have below := units_lt_pow finite
    have narrow : (Interval.ofRank rank).high ≤ 3 * units rank := by
      show units rank + units (rank + 1) ≤ _
      have := ulp_le_units pos
      rw [units_succ]
      omega
    have narrow : ((Interval.ofRank rank).high : ℚ) ≤ 3 * units rank := by exact_mod_cast narrow
    have positive : (0 : ℚ) ≤ units rank := Nat.cast_nonneg _
    linarith

/-- No decimal that is read as the double has fewer digits. -/
theorem length_shortest_le {rank : Nat} (pos : 0 < rank) (finite : rank < infinityRank) {place : Int} {c : Nat}
    (reads : nearestRank (c * Interval.gridNum place) (Interval.gridDen place) = rank) :
    (Nat.toDigits 10 (shortest rank).1).length ≤ (Nat.toDigits 10 c).length := by
  have inside := (nearestRank_eq_iff (Interval.gridDen_pos place) finite).1 reads
  by_contra! fewer
  have least := place_le_shortest pos finite inside
  have some : 0 < (Nat.toDigits 10 c).length := Nat.length_toDigits_pos
  have lower : leadingPlace place c < leadingPlace (shortest rank).2 (shortest rank).1 := by
    unfold leadingPlace
    omega
  -- The power of ten between the two decimals has a single digit.
  have power := inside.between (shortest_contains pos) (point_le_pow lower) (pow_le_point (shortest_pos pos) le_rfl)
  have single := place_le_shortest pos finite power
  unfold leadingPlace at single
  omega

end Lox.Decimal
