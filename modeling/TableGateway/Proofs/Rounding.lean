import Mathlib.Algebra.Order.Field.Power
import Mathlib.Data.Nat.Log
import Mathlib.Data.Rat.Cast.Order
import Mathlib.Tactic.FieldSimp
import Mathlib.Tactic.Linarith
import Mathlib.Tactic.Positivity
import Mathlib.Tactic.Ring
import TableGateway.Number.Binary

/-! Rounding to the nearest binary number, said of rational numbers. Every positive ratio lies in one binade, where
it is a multiple of the last place and a half of it at most away from the number that it rounds to. -/
namespace TableGateway

structure Rounds (r : ℚ) (n : Nat) : Prop where
  below : (n : ℚ) - 1 / 2 ≤ r
  above : r ≤ n + 1 / 2
  tie : r = n - 1 / 2 ∨ r = n + 1 / 2 → n % 2 = 0

theorem roundDivRounds (num : Nat) {den : Nat} (positive : 0 < den) :
    Rounds (num / den) (roundDiv .even num den) := by
  have size : (0 : ℚ) < den := Nat.cast_pos.mpr positive
  obtain ⟨part, known⟩ : ∃ part : ℚ, part = (num % den : Nat) / den := ⟨_, rfl⟩
  have quotient : (num : ℚ) / den = (num / den : Nat) + part := by
    have whole : (num : ℚ) = (num / den : Nat) * den + (num % den : Nat) := by
      exact_mod_cast (Nat.div_add_mod' num den).symm
    rw [known, whole]
    field_simp
  have low : 0 ≤ part := known ▸ by positivity
  have high : part < 1 := by
    rw [known, div_lt_one size]
    exact Nat.cast_lt.mpr (Nat.mod_lt num positive)
  rw [quotient, roundDiv]
  by_cases less : 2 * (num % den) < den
  · have half : part < 1 / 2 := by
      rw [known, div_lt_div_iff₀ size (by norm_num)]
      exact_mod_cast (by omega : num % den * 2 < 1 * den)
    rw [if_pos less]
    exact ⟨by linarith, by linarith, fun tie => by rcases tie with tie | tie <;> linarith⟩
  · by_cases more : den < 2 * (num % den)
    · have half : 1 / 2 < part := by
        rw [known, div_lt_div_iff₀ (by norm_num) size]
        exact_mod_cast (by omega : 1 * den < num % den * 2)
      have next : ((num / den + 1 : Nat) : ℚ) = (num / den : Nat) + 1 := Nat.cast_succ _
      rw [if_neg less, if_pos more]
      refine ⟨by rw [next]; linarith, by rw [next]; linarith, fun tie => ?_⟩
      rw [next] at tie
      rcases tie with tie | tie <;> linarith
    · have half : part = 1 / 2 := by
        rw [known, div_eq_div_iff size.ne' (by norm_num)]
        exact_mod_cast (by omega : num % den * 2 = 1 * den)
      rw [if_neg less, if_neg more]
      rcases Nat.mod_two_eq_zero_or_one (num / den) with even | odd
      · rw [even]
        exact ⟨by push_cast; linarith, by push_cast; linarith, fun _ => even⟩
      · rw [odd]
        exact ⟨by push_cast; linarith, by push_cast; linarith, fun _ => by omega⟩

theorem Rounds.mono {r s : ℚ} {n m : Nat} (first : Rounds r n) (second : Rounds s m) (le : r ≤ s) : n ≤ m := by
  by_contra more
  have next : (m : ℚ) + 1 ≤ n := by exact_mod_cast (by omega : m + 1 ≤ n)
  have low := first.below
  have high := second.above
  have tied : r = n - 1 / 2 := by linarith
  have tiedToo : s = m + 1 / 2 := by linarith
  have even := first.tie (.inl tied)
  have evenToo := second.tie (.inr tiedToo)
  have adjacent : (n : ℚ) = m + 1 := by linarith
  have adjacent : n = m + 1 := by exact_mod_cast adjacent
  omega

theorem Rounds.unique {r : ℚ} {n m : Nat} (first : Rounds r n) (second : Rounds r m) : n = m :=
  Nat.le_antisymm (first.mono second le_rfl) (second.mono first le_rfl)

theorem Rounds.near {r : ℚ} {q : Int} {n : Nat} (rounds : Rounds (r / 2 ^ q) n) :
    |(n : ℚ) * 2 ^ q - r| ≤ 2 ^ q / 2 := by
  have size : (0 : ℚ) < 2 ^ q := by positivity
  have below := (le_div_iff₀ size).mp rounds.below
  have above := (div_le_iff₀ size).mp rounds.above
  rw [abs_le]
  constructor <;> linarith

theorem roundsNat (n : Nat) : Rounds n n :=
  ⟨by linarith, by linarith, fun tie => by rcases tie with tie | tie <;> linarith⟩

theorem splitPower {b : ℚ} (nonzero : b ≠ 0) (q : Int) : b ^ q = b ^ q.toNat / b ^ (-q).toNat := by
  have parts : q = q.toNat - (-q).toNat := by omega
  conv_lhs => rw [parts, zpow_sub₀ nonzero, zpow_natCast, zpow_natCast]

theorem binaryRatioValue (m : Nat) (q : Int) : ((binaryRatio m q).1 : ℚ) / (binaryRatio m q).2 = m * 2 ^ q := by
  rw [splitPower two_ne_zero, binaryRatio]
  push_cast
  ring

namespace BinaryFormat

variable {f : BinaryFormat}

structure Binade (f : BinaryFormat) (r : ℚ) (q : Int) : Prop where
  least : f.least ≤ q
  below : r < 2 ^ (f.fractionWidth + 1) * 2 ^ q
  above : q = f.least ∨ 2 ^ f.fractionWidth * 2 ^ q ≤ r

theorem Binade.mono {r s : ℚ} {p q : Int} (first : f.Binade r p) (second : f.Binade s q) (le : r ≤ s) : p ≤ q := by
  by_contra more
  have normal : 2 ^ f.fractionWidth * 2 ^ p ≤ r := first.above.resolve_left fun last => by
    have := second.least
    omega
  have places : (2 : ℚ) ^ (q + 1) ≤ 2 ^ p := zpow_le_zpow_right₀ (by norm_num) (by omega)
  have bound : (2 : ℚ) ^ (f.fractionWidth + 1) * 2 ^ q ≤ 2 ^ f.fractionWidth * 2 ^ p := by
    calc (2 : ℚ) ^ (f.fractionWidth + 1) * 2 ^ q = 2 ^ f.fractionWidth * 2 ^ (q + 1) := by
          rw [pow_succ, zpow_add_one₀ (by norm_num)]
          ring
      _ ≤ 2 ^ f.fractionWidth * 2 ^ p := by gcongr
  have := second.below
  linarith

theorem Binade.unique {r : ℚ} {p q : Int} (first : f.Binade r p) (second : f.Binade r q) : p = q :=
  Int.le_antisymm (first.mono second le_rfl) (second.mono first le_rfl)

theorem scaledRatio (num den : Nat) (q : Int) :
    ((num * 2 ^ (-q).toNat : Nat) : ℚ) / (den * 2 ^ q.toNat : Nat) = num / den / 2 ^ q := by
  rw [splitPower two_ne_zero]
  push_cast
  field_simp

def place (f : BinaryFormat) (q : Int) (n : Nat) : Nat := (q - f.least).toNat * 2 ^ f.fractionWidth + n

theorem logarithmBounds {num den : Nat} (some : 0 < num) (positive : 0 < den) (fraction : Nat) :
    (num : ℚ) / den < 2 ^ (fraction + 1) * 2 ^ ((num.log2 : Int) - den.log2 - fraction) ∧
      2 ^ fraction * 2 ^ ((num.log2 : Int) - den.log2 - fraction - 1) ≤ (num : ℚ) / den := by
  have size : (0 : ℚ) < den := Nat.cast_pos.mpr positive
  have numLow : (2 : ℚ) ^ num.log2 ≤ num := by exact_mod_cast Nat.log2_self_le some.ne'
  have numHigh : (num : ℚ) < 2 ^ (num.log2 + 1) := by exact_mod_cast Nat.lt_log2_self
  have denLow : (2 : ℚ) ^ den.log2 ≤ den := by exact_mod_cast Nat.log2_self_le positive.ne'
  have denHigh : (den : ℚ) < 2 ^ (den.log2 + 1) := by exact_mod_cast Nat.lt_log2_self
  constructor
  · have place : (2 : ℚ) ^ (fraction + 1) * 2 ^ ((num.log2 : Int) - den.log2 - fraction) * 2 ^ den.log2 =
        2 ^ (num.log2 + 1) := by
      rw [zpow_sub₀ (by norm_num), zpow_sub₀ (by norm_num), zpow_natCast, zpow_natCast, zpow_natCast]
      field_simp
      ring
    rw [div_lt_iff₀ size]
    calc (num : ℚ) < 2 ^ (num.log2 + 1) := numHigh
      _ = 2 ^ (fraction + 1) * 2 ^ ((num.log2 : Int) - den.log2 - fraction) * 2 ^ den.log2 := place.symm
      _ ≤ 2 ^ (fraction + 1) * 2 ^ ((num.log2 : Int) - den.log2 - fraction) * den := by gcongr
  · have place : (2 : ℚ) ^ fraction * 2 ^ ((num.log2 : Int) - den.log2 - fraction - 1) * 2 ^ (den.log2 + 1) =
        2 ^ num.log2 := by
      rw [zpow_sub₀ (by norm_num), zpow_sub₀ (by norm_num), zpow_sub₀ (by norm_num), zpow_natCast, zpow_natCast,
        zpow_natCast]
      field_simp
      ring
    rw [le_div_iff₀ size]
    calc (2 : ℚ) ^ fraction * 2 ^ ((num.log2 : Int) - den.log2 - fraction - 1) * den
        ≤ 2 ^ fraction * 2 ^ ((num.log2 : Int) - den.log2 - fraction - 1) * 2 ^ (den.log2 + 1) := by gcongr
      _ = 2 ^ num.log2 := place
      _ ≤ num := numLow

theorem nearestPlace (f : BinaryFormat) {num den : Nat} (some : 0 < num) (positive : 0 < den) :
    ∃ q n, f.Binade (num / den) q ∧ Rounds (num / den / 2 ^ q) n ∧
      f.nearest num den = min f.infinity (f.place q n) := by
  obtain ⟨top, bottom⟩ := logarithmBounds some positive f.fractionWidth
  generalize exact : (num.log2 : Int) - den.log2 - f.fractionWidth = log at top bottom
  obtain ⟨guess, guessed⟩ : ∃ guess, guess = max f.least log := ⟨_, rfl⟩
  have places (q : Int) : 0 < den * 2 ^ q.toNat := Nat.mul_pos positive (Nat.pow_pos (by decide))
  have floor : num * 2 ^ (-guess).toNat / (den * 2 ^ guess.toNat) < 2 ^ f.fractionWidth ↔
      (num : ℚ) / den < 2 ^ f.fractionWidth * 2 ^ guess := by
    rw [Nat.div_lt_iff_lt_mul (places guess), ← div_lt_iff₀ (by positivity), ← scaledRatio,
      div_lt_iff₀ (by exact_mod_cast places guess)]
    exact_mod_cast Iff.rfl
  have below : (num : ℚ) / den < 2 ^ (f.fractionWidth + 1) * 2 ^ guess :=
    lt_of_lt_of_le top (mul_le_mul_of_nonneg_left (zpow_le_zpow_right₀ (by norm_num) (by omega)) (by positivity))
  obtain ⟨q, placed⟩ : ∃ q, q = if num * 2 ^ (-guess).toNat / (den * 2 ^ guess.toNat) < 2 ^ f.fractionWidth ∧
      f.least < guess then guess - 1 else guess := ⟨_, rfl⟩
  refine ⟨q, roundDiv .even (num * 2 ^ (-q).toNat) (den * 2 ^ q.toNat), ?_,
    scaledRatio num den q ▸ roundDivRounds _ (places q), ?_⟩
  · split at placed
    case isTrue small =>
      subst placed
      have halved : (2 : ℚ) ^ (f.fractionWidth + 1) * 2 ^ (guess - 1) = 2 ^ f.fractionWidth * 2 ^ guess := by
        rw [zpow_sub_one₀ (by norm_num), pow_succ]
        ring
      have own : guess = log := by omega
      exact ⟨by omega, halved ▸ floor.mp small.1, .inr (own ▸ bottom)⟩
    case isFalse large =>
      subst placed
      refine ⟨guessed ▸ le_max_left .., below, ?_⟩
      by_cases last : f.least < q
      · exact .inr (not_lt.mp fun small => large ⟨floor.mpr small, last⟩)
      · exact .inl (by omega)
  · rw [nearest, if_neg some.ne']
    simp only [exact, ← guessed, ← placed, place]

theorem nearestAt {num den n : Nat} {q : Int} (some : 0 < num) (positive : 0 < den) (binade : f.Binade (num / den) q)
    (rounds : Rounds (num / den / 2 ^ q) n) : f.nearest num den = min f.infinity (f.place q n) := by
  obtain ⟨p, m, placed, rounded, nearest⟩ := f.nearestPlace some positive
  obtain rfl := placed.unique binade
  obtain rfl := rounded.unique rounds
  exact nearest

theorem Binade.atMost {r : ℚ} {q : Int} {n : Nat} (binade : f.Binade r q) (rounds : Rounds (r / 2 ^ q) n) :
    n ≤ 2 ^ (f.fractionWidth + 1) := by
  refine rounds.mono (roundsNat _) ?_
  rw [div_le_iff₀ (by positivity)]
  exact_mod_cast binade.below.le

theorem Binade.atLeast {r : ℚ} {q : Int} {n : Nat} (binade : f.Binade r q) (rounds : Rounds (r / 2 ^ q) n)
    (normal : f.least < q) : 2 ^ f.fractionWidth ≤ n := by
  refine (roundsNat _).mono rounds ?_
  rw [le_div_iff₀ (by positivity)]
  exact_mod_cast binade.above.resolve_left normal.ne'

theorem placeMono {r s : ℚ} {p q : Int} {n m : Nat} (first : f.Binade r p) (rounded : Rounds (r / 2 ^ p) n)
    (second : f.Binade s q) (roundedToo : Rounds (s / 2 ^ q) m) (le : r ≤ s) : f.place p n ≤ f.place q m := by
  rcases eq_or_lt_of_le (first.mono second le) with rfl | lower
  · have size : r / 2 ^ p ≤ s / 2 ^ p := by gcongr
    exact Nat.add_le_add_left (rounded.mono roundedToo size) _
  · have low := first.least
    have most := first.atMost rounded
    have least := second.atLeast roundedToo (by omega)
    have steps : (p - f.least).toNat + 1 ≤ (q - f.least).toNat := by omega
    have gap := Nat.mul_le_mul_right (2 ^ f.fractionWidth) steps
    rw [Nat.pow_succ] at most
    rw [Nat.add_mul] at gap
    unfold place
    omega

theorem valueMono {r s : ℚ} {p q : Int} {n m : Nat} (first : f.Binade r p) (rounded : Rounds (r / 2 ^ p) n)
    (second : f.Binade s q) (roundedToo : Rounds (s / 2 ^ q) m) (le : r ≤ s) : (n : ℚ) * 2 ^ p ≤ m * 2 ^ q := by
  rcases eq_or_lt_of_le (first.mono second le) with rfl | lower
  · have size : r / 2 ^ p ≤ s / 2 ^ p := by gcongr
    have below : (n : ℚ) ≤ m := by exact_mod_cast rounded.mono roundedToo size
    gcongr
  · have low := first.least
    have most : (n : ℚ) ≤ 2 ^ (f.fractionWidth + 1) := by exact_mod_cast first.atMost rounded
    have least : (2 : ℚ) ^ f.fractionWidth ≤ m := by exact_mod_cast second.atLeast roundedToo (by omega)
    have places : (2 : ℚ) ^ (p + 1) ≤ 2 ^ q := zpow_le_zpow_right₀ (by norm_num) (by omega)
    calc (n : ℚ) * 2 ^ p ≤ 2 ^ (f.fractionWidth + 1) * 2 ^ p := by gcongr
      _ = 2 ^ f.fractionWidth * 2 ^ (p + 1) := by
        rw [pow_succ, zpow_add_one₀ (by norm_num)]
        ring
      _ ≤ m * 2 ^ q := by gcongr

theorem nearestMono {num den num' den' : Nat} (positive : 0 < den) (positive' : 0 < den')
    (le : (num : ℚ) / den ≤ num' / den') : f.nearest num den ≤ f.nearest num' den' := by
  rcases Nat.eq_zero_or_pos num with rfl | some
  · simp [nearest]
  · have some' : 0 < num' := by
      have : (0 : ℚ) < num / den := by positivity
      rcases Nat.eq_zero_or_pos num' with rfl | some'
      · simp only [Nat.cast_zero, zero_div] at le
        linarith
      · exact some'
    obtain ⟨p, n, first, rounded, nearest⟩ := f.nearestPlace some positive
    obtain ⟨q, m, second, roundedToo, nearestToo⟩ := f.nearestPlace some' positive'
    rw [nearest, nearestToo]
    exact min_le_min_left _ (placeMono first rounded second roundedToo le)

end BinaryFormat
end TableGateway
