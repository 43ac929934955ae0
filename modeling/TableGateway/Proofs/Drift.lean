import TableGateway.Json.Reader
import TableGateway.Number.Shortest
import TableGateway.Proofs.Patterns

/-! How far a reader moves a number by rounding its digits and its power of ten before it multiplies or divides them.
Every rounding is by a factor close to one, and the factors of a product or a quotient multiply. -/
namespace TableGateway

structure Close (w a b : ℚ) : Prop where
  positive : 0 < a
  factor : 0 < w
  below : b ≤ a * w
  above : a ≤ b * w

namespace Close

variable {v w a b c d : ℚ}

theorem right (close : Close w a b) : 0 < b :=
  pos_of_mul_pos_left (lt_of_lt_of_le close.positive close.above) close.factor.le

theorem widen (close : Close v a b) (le : v ≤ w) : Close w a b where
  positive := close.positive
  factor := lt_of_lt_of_le close.factor le
  below := le_trans close.below (mul_le_mul_of_nonneg_left le close.positive.le)
  above := le_trans close.above (mul_le_mul_of_nonneg_left le close.right.le)

theorem trans (first : Close v a b) (second : Close w b c) : Close (v * w) a c where
  positive := first.positive
  factor := mul_pos first.factor second.factor
  below := calc
    c ≤ b * w := second.below
    _ ≤ a * v * w := mul_le_mul_of_nonneg_right first.below second.factor.le
    _ = a * (v * w) := mul_assoc ..
  above := calc
    a ≤ b * v := first.above
    _ ≤ c * w * v := mul_le_mul_of_nonneg_right second.above first.factor.le
    _ = c * (v * w) := by ring

theorem mul (first : Close v a b) (second : Close w c d) : Close (v * w) (a * c) (b * d) where
  positive := mul_pos first.positive second.positive
  factor := mul_pos first.factor second.factor
  below := calc
    b * d ≤ a * v * (c * w) :=
      mul_le_mul first.below second.below second.right.le (mul_pos first.positive first.factor).le
    _ = a * c * (v * w) := by ring
  above := calc
    a * c ≤ b * v * (d * w) :=
      mul_le_mul first.above second.above second.positive.le (mul_pos first.right first.factor).le
    _ = b * d * (v * w) := by ring

theorem inv (close : Close w a b) : Close w a⁻¹ b⁻¹ where
  positive := inv_pos.mpr close.positive
  factor := close.factor
  below := by
    rw [inv_mul_eq_div, le_div_iff₀ close.positive, inv_mul_le_iff₀ close.right]
    exact close.above
  above := by
    rw [inv_mul_eq_div, le_div_iff₀ close.right, inv_mul_le_iff₀ close.positive]
    exact close.below

theorem div (first : Close v a b) (second : Close w c d) : Close (v * w) (a / c) (b / d) := by
  rw [div_eq_mul_inv, div_eq_mul_inv]
  exact first.mul second.inv

end Close

namespace Json
namespace Reader

def ratio (x : Nat × Nat) : ℚ := x.1 / x.2

theorem roundedPlace {num den : Nat} (some : 0 < num) (positive : 0 < den)
    (finite : BinaryFormat.double.nearest num den < BinaryFormat.double.infinity) :
    ∃ (q : Int) (n : Nat), BinaryFormat.double.Binade (num / den) q ∧ Rounds (num / den / 2 ^ q) n ∧
      ratio (rounded num den) = n * 2 ^ q ∧ 0 < (rounded num den).2 := by
  obtain ⟨m, n, p, q, reading, same, binade, rounds⟩ := Binary.ofRatioReading some positive finite false
  have pair : rounded num den = binaryRatio m p := by
    unfold rounded
    rw [reading]
  refine ⟨q, n, binade, rounds, ?_, ?_⟩
  · rw [pair, ratio, binaryRatioValue, same]
  · rw [pair]
    exact Nat.pow_pos (by decide)

theorem halfPlace {r : ℚ} {q : Int} (above : q = BinaryFormat.double.least ∨ 2 ^ 52 * 2 ^ q ≤ r) :
    (2 : ℚ) ^ q / 2 ≤ r * 2 ^ (-53 : Int) ∨ (2 : ℚ) ^ q / 2 = 2 ^ (-1075 : Int) := by
  rcases above with rfl | normal
  · right
    rw [show BinaryFormat.double.least = -1075 + 1 from rfl, zpow_add_one₀ (by norm_num)]
    ring
  · left
    have half : (2 : ℚ) ^ q / 2 = 2 ^ 52 * 2 ^ q * 2 ^ (-53 : Int) := by
      rw [zpow_neg]
      norm_num
      ring
    rw [half]
    exact mul_le_mul_of_nonneg_right normal (by positivity)

theorem roundedClose {num den : Nat} (some : 0 < num) (positive : 0 < den)
    (finite : BinaryFormat.double.nearest num den < BinaryFormat.double.infinity) {u : ℚ} (unit : 2 ^ (-53 : Int) ≤ u)
    (half : u ≤ 1 / 2) (large : 2 ^ (-1075 : Int) ≤ (num : ℚ) / den * u) :
    Close (1 + 2 * u) (ratio (rounded num den)) (num / den) := by
  obtain ⟨q, n, binade, rounds, value, -⟩ := roundedPlace some positive finite
  have near : |ratio (rounded num den) - num / den| ≤ 2 ^ q / 2 := value ▸ rounds.near
  have size : (0 : ℚ) < num / den := by positivity
  have small : 0 < u := lt_of_lt_of_le (by positivity) unit
  have place : (2 : ℚ) ^ q / 2 ≤ num / den * u := by
    rcases halfPlace binade.above with part | last
    · exact le_trans part (mul_le_mul_of_nonneg_left unit size.le)
    · exact last ▸ large
  generalize (num : ℚ) / den = r at *
  generalize ratio (rounded num den) = a at *
  obtain ⟨low, high⟩ := abs_le.mp near
  have least : r * (1 - u) ≤ a := by linarith
  refine ⟨?_, by linarith, ?_, by nlinarith⟩
  · nlinarith
  · calc r ≤ r * (1 - u) * (1 + 2 * u) := by nlinarith [mul_nonneg size.le small.le, mul_nonneg small.le small.le]
      _ ≤ a * (1 + 2 * u) := mul_le_mul_of_nonneg_right least (by linarith)

def once : ℚ := 1 + 2 * 2 ^ (-53 : Int)

theorem largestPower : BinaryFormat.double.nearest (10 ^ 308) 1 < BinaryFormat.double.infinity := by
  decide +kernel

theorem powerRoom : 2 ^ 60 ≤ 10 ^ 308 := by
  decide +kernel

theorem subnormalRoom : 11 * 10 ^ 308 ≤ 10 * 2 ^ 1024 := by
  decide +kernel

theorem ratioFinite {num den : Nat} (positive : 0 < den) (bound : (num : ℚ) / den ≤ (10 ^ 308 : Nat)) :
    BinaryFormat.double.nearest num den < BinaryFormat.double.infinity := by
  refine Nat.lt_of_le_of_lt (BinaryFormat.nearestMono positive Nat.one_pos ?_) largestPower
  rwa [Nat.cast_one, div_one]

theorem wholeClose {n : Nat} (some : 0 < n) (bound : n ≤ 10 ^ 308) :
    Close once (ratio (rounded n 1)) n ∧ 0 < (rounded n 1).2 := by
  have one : (1 : ℚ) ≤ n := by exact_mod_cast some
  have finite : BinaryFormat.double.nearest n 1 < BinaryFormat.double.infinity :=
    ratioFinite Nat.one_pos (by rw [Nat.cast_one, div_one]; exact Nat.cast_le.mpr bound)
  have large : (2 : ℚ) ^ (-1075 : Int) ≤ n / (1 : Nat) * 2 ^ (-53 : Int) := by
    have power : (2 : ℚ) ^ (-1075 : Int) ≤ 1 * 2 ^ (-53 : Int) := by
      rw [one_mul]
      exact zpow_le_zpow_right₀ (by norm_num) (by norm_num)
    rw [Nat.cast_one, div_one]
    exact le_trans power (mul_le_mul_of_nonneg_right one (by positivity))
  have close := roundedClose some Nat.one_pos finite le_rfl (by norm_num) large
  obtain ⟨-, -, -, -, -, denominator⟩ := roundedPlace some Nat.one_pos finite
  rw [Nat.cast_one, div_one] at close
  exact ⟨close, denominator⟩

theorem ratioSome {x : Nat × Nat} (positive : 0 < ratio x) : 0 < x.1 := by
  rcases Nat.eq_zero_or_pos x.1 with zero | some
  · simp [ratio, zero] at positive
  · exact some

theorem ratioQuotient (x y : Nat × Nat) : ratio (x.1 * y.2, x.2 * y.1) = ratio x / ratio y := by
  unfold ratio
  push_cast
  rw [div_div_div_eq]

theorem ratioProduct (x y : Nat × Nat) : ratio (x.1 * y.1, x.2 * y.2) = ratio x * ratio y := by
  unfold ratio
  push_cast
  rw [div_mul_div_comm]

theorem powerClose {k : Nat} (range : k ≤ 308) :
    Close once (ratio (rounded (10 ^ k) 1)) (10 ^ k) ∧ 0 < (rounded (10 ^ k) 1).2 := by
  have bound : 10 ^ k ≤ 10 ^ 308 := by gcongr; decide
  obtain ⟨close, positive⟩ := wholeClose (Nat.pow_pos (by decide)) bound
  rw [Nat.cast_pow, Nat.cast_ofNat] at close
  exact ⟨close, positive⟩

theorem digitsExact {c : Nat} (some : 0 < c) (small : c < 2 ^ 53) : ratio (rounded c 1) = c := by
  have finite : BinaryFormat.double.nearest c 1 < BinaryFormat.double.infinity :=
    ratioFinite Nat.one_pos (by
      rw [Nat.cast_one, div_one]
      exact Nat.cast_le.mpr (Nat.le_trans (show c ≤ 2 ^ 60 by omega) powerRoom))
  obtain ⟨q, n, binade, rounds, value, -⟩ := roundedPlace some Nat.one_pos finite
  rw [Nat.cast_one, div_one] at binade rounds
  have place : q ≤ 0 := by
    by_contra large
    have normal : 2 ^ 52 * 2 ^ q ≤ (c : ℚ) := binade.above.resolve_left fun last => by
      rw [last] at large
      exact large (by decide)
    have double : (2 : ℚ) ^ (1 : Int) ≤ 2 ^ q := zpow_le_zpow_right₀ (by norm_num) (by omega)
    have bound : (c : ℚ) < 2 ^ 53 := by exact_mod_cast small
    rw [zpow_one] at double
    linarith
  obtain ⟨k, rfl⟩ : ∃ k : Nat, q = -k := ⟨(-q).toNat, by omega⟩
  have multiple : (c : ℚ) / 2 ^ (-(k : Int)) = (c * 2 ^ k : Nat) := by
    rw [zpow_neg, zpow_natCast, div_inv_eq_mul]
    push_cast
    rfl
  rw [multiple] at rounds
  have same : n = c * 2 ^ k := rounds.unique (roundsNat _)
  rw [value, same, zpow_neg, zpow_natCast]
  push_cast
  field_simp

theorem powersPair : ∀ k < 23, (rounded (10 ^ k) 1).1 = 10 ^ k * (rounded (10 ^ k) 1).2 := by
  decide +kernel

theorem powersExact {k : Nat} (small : k ≤ 22) : ratio (rounded (10 ^ k) 1) = 10 ^ k := by
  obtain ⟨-, positive⟩ := powerClose (Nat.le_trans small (by decide : 22 ≤ 308))
  have size : ((rounded (10 ^ k) 1).2 : ℚ) ≠ 0 := Nat.cast_ne_zero.mpr positive.ne'
  rw [ratio, powersPair k (by omega)]
  push_cast
  field_simp

def drift : ℚ := 1 + 2 ^ (-49 : Int)

structure Prepared (x : Nat × Nat) (y : Scientific) : Prop where
  some : 0 < x.1
  positive : 0 < x.2
  finite : BinaryFormat.double.nearest x.1 x.2 < BinaryFormat.double.infinity
  close : Close drift (ratio x) (y.digits * 10 ^ y.exponent)
  exact : y.digits < 2 ^ 53 → y.exponent.natAbs ≤ 22 → ratio x = y.digits * 10 ^ y.exponent

theorem multiplied {c k : Nat} (some : 0 < c) (few : c < 2 ^ 59) (range : k ≤ 308)
    (finite : BinaryFormat.double.nearest ((rounded c 1).1 * (rounded (10 ^ k) 1).1)
      ((rounded c 1).2 * (rounded (10 ^ k) 1).2) < BinaryFormat.double.infinity) :
    Prepared ((rounded c 1).1 * (rounded (10 ^ k) 1).1, (rounded c 1).2 * (rounded (10 ^ k) 1).2) ⟨c, k⟩ := by
  obtain ⟨front, den⟩ := wholeClose some (Nat.le_trans (by omega) powerRoom)
  obtain ⟨power, denToo⟩ := powerClose range
  have close := front.mul power
  rw [← ratioProduct] at close
  refine ⟨ratioSome close.positive, Nat.mul_pos den denToo, finite, ?_, fun digits tens => ?_⟩
  · rw [zpow_natCast]
    exact close.widen (by norm_num [once, drift])
  · rw [ratioProduct, digitsExact some digits, powersExact (by simpa using tens), zpow_natCast]

theorem smallFinite {x : Nat × Nat} {y : Scientific} (positive : 0 < x.2) (few : y.digits < 2 ^ 59)
    (down : y.exponent ≤ 0) (close : Close drift (ratio x) (y.digits * 10 ^ y.exponent)) :
    BinaryFormat.double.nearest x.1 x.2 < BinaryFormat.double.infinity := by
  have power : (10 : ℚ) ^ y.exponent ≤ 1 := zpow_le_one_of_nonpos₀ (by norm_num) down
  have digits : (y.digits : ℚ) ≤ 2 ^ 59 := by exact_mod_cast few.le
  have room : (2 ^ 60 : ℚ) ≤ (10 ^ 308 : Nat) := by exact_mod_cast powerRoom
  refine ratioFinite positive (le_trans ?_ room)
  calc ratio x ≤ y.digits * 10 ^ y.exponent * drift := close.above
    _ ≤ 2 ^ 59 * 1 * 2 := by
      have := close.factor
      gcongr
      norm_num [drift]
    _ = 2 ^ 60 := by norm_num

theorem divided {c k : Nat} (some : 0 < c) (few : c < 2 ^ 59) (range : k ≤ 308) :
    Prepared ((rounded c 1).1 * (rounded (10 ^ k) 1).2, (rounded c 1).2 * (rounded (10 ^ k) 1).1) ⟨c, -k⟩ := by
  obtain ⟨front, den⟩ := wholeClose some (Nat.le_trans (by omega) powerRoom)
  obtain ⟨power, denToo⟩ := powerClose range
  have close := (front.div power).widen (w := drift) (by norm_num [once, drift])
  have same : (c : ℚ) / 10 ^ k = c * 10 ^ (-k : Int) := by rw [zpow_neg, zpow_natCast, div_eq_mul_inv]
  rw [← ratioQuotient, same] at close
  have positive := Nat.mul_pos den (ratioSome power.positive)
  exact ⟨ratioSome close.positive, positive,
    smallFinite positive (y := ⟨c, -k⟩) few (by dsimp only; omega) close, close, fun digits tens => by
      rw [ratioQuotient, digitsExact some digits, powersExact (by simpa using tens), same]⟩

theorem invBelow {r c p t : ℚ} (one : 1 ≤ c) (below : c / p ≤ r * (11 / 10)) (room : 11 * p ≤ 10 * t)
    (positive : 0 < p) (some : 0 < t) : t⁻¹ ≤ r := by
  rw [div_le_iff₀ positive] at below
  have size : 0 < r := by
    by_contra none
    nlinarith
  rw [inv_le_iff_one_le_mul₀ some]
  nlinarith

theorem dividedTwice {c k : Nat} (some : 0 < c) (few : c < 2 ^ 59) (range : k ≤ 308) :
    let first := ((rounded c 1).1 * (rounded (10 ^ 308) 1).2, (rounded c 1).2 * (rounded (10 ^ 308) 1).1)
    let between := rounded first.1 first.2
    Prepared (between.1 * (rounded (10 ^ k) 1).2, between.2 * (rounded (10 ^ k) 1).1) ⟨c, -308 - k⟩ := by
  intro first between
  have far : ¬(-308 - (k : Int)).natAbs ≤ 22 := by omega
  obtain ⟨front, den⟩ := wholeClose some (Nat.le_trans (by omega) powerRoom)
  obtain ⟨largest, denLargest⟩ := powerClose (le_refl 308)
  obtain ⟨power, denToo⟩ := powerClose range
  have start := divided some few (le_refl 308)
  have firstClose : Close (once * once) (ratio first) (c / 10 ^ 308) := ratioQuotient _ _ ▸ front.div largest
  have large : (2 : ℚ) ^ (-1075 : Int) ≤ ratio first * 2 ^ (-51 : Int) := by
    have below : (c : ℚ) / 10 ^ 308 ≤ ratio first * (11 / 10) :=
      le_trans firstClose.below (mul_le_mul_of_nonneg_left (by norm_num [once]) firstClose.positive.le)
    have room := (Nat.cast_le (α := ℚ)).mpr subnormalRoom
    simp only [Nat.cast_mul, Nat.cast_pow, Nat.cast_ofNat] at room
    have least := invBelow (by exact_mod_cast some) below room (pow_pos (by norm_num) _) (pow_pos (by norm_num) _)
    have parts : (2 : ℚ) ^ (-1075 : Int) = 2 ^ (-1024 : Int) * 2 ^ (-51 : Int) := by
      rw [← zpow_add₀ (by norm_num)]
      rfl
    rw [parts, zpow_neg, zpow_ofNat]
    exact mul_le_mul_of_nonneg_right least (by positivity)
  have betweenClose := roundedClose start.some start.positive start.finite (u := 2 ^ (-51 : Int))
    (zpow_le_zpow_right₀ (by norm_num) (by norm_num)) (by norm_num) large
  obtain ⟨-, -, -, -, -, denBetween⟩ := roundedPlace start.some start.positive start.finite
  have close := ((betweenClose.trans firstClose).div power).widen (w := drift) (by norm_num [once, drift])
  have same : (c : ℚ) / 10 ^ 308 / 10 ^ k = c * 10 ^ (-308 - k : Int) := by
    rw [zpow_sub₀ (by norm_num), zpow_neg, zpow_natCast, zpow_ofNat, ← mul_div_assoc, ← div_eq_mul_inv]
  rw [← ratioQuotient, same] at close
  have positive := Nat.mul_pos denBetween (ratioSome power.positive)
  exact ⟨ratioSome close.positive, positive,
    smallFinite positive (y := ⟨c, -308 - k⟩) few (by dsimp only; omega) close, close, fun _ tens => absurd tens far⟩

end Reader
end Json
end TableGateway
