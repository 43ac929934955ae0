import Mathlib.Tactic.GCongr
import Mathlib.Tactic.Linarith
import Mathlib.Tactic.Positivity
import TableGateway.Proofs.DecimalValue

/-! Numbers that a decimal can hold on their way from the wire. When 96 bits and 28 places are enough for a number, so
they are for every part that is added up on the way to it, and nothing is rounded. -/
namespace TableGateway

namespace Decimal

def Within (places : Nat) (q : ℚ) : Prop := ∃ n : Nat, q * 10 ^ places = n

theorem Within.rest {places m : Nat} {a q : ℚ} (within : Within places (a + q)) (front : a * 10 ^ places = m)
    (nonneg : 0 ≤ q) : Within places q := by
  obtain ⟨n, whole⟩ := within
  have taken : (n : ℚ) = m + q * 10 ^ places := by rw [← whole, add_mul, front]
  have least : m ≤ n := by
    have : (m : ℚ) ≤ n := by
      rw [taken]
      exact le_add_of_nonneg_right (by positivity)
    exact_mod_cast this
  exact ⟨n - m, by rw [Nat.cast_sub least, taken]; ring⟩

def amount (x : Nat × Nat) : ℚ := x.1 / 10 ^ x.2

theorem amountScaled (x : Nat × Nat) {places : Nat} (fine : x.2 ≤ places) :
    amount x * 10 ^ places = (x.1 * 10 ^ (places - x.2) : Nat) := by
  have split : (10 : ℚ) ^ places = 10 ^ x.2 * 10 ^ (places - x.2) := by rw [← pow_add, Nat.add_sub_cancel' fine]
  rw [amount, split]
  push_cast
  field_simp

theorem amountRoom {x : Nat × Nat} {places : Nat} (fine : x.2 ≤ places) (room : amount x * 10 ^ places < 2 ^ 96) :
    x.1 * 10 ^ (places - x.2) < 2 ^ 96 := by
  rw [amountScaled x fine] at room
  exact_mod_cast room

theorem stripAmount (m : Nat) (places : Nat) :
    amount (strip m places) = amount (m, places) ∧ (strip m places).2 ≤ places := by
  induction places generalizing m with
  | zero => exact ⟨rfl, le_rfl⟩
  | succ places ih =>
    rw [strip]
    split
    case isTrue zero =>
      obtain ⟨same, fewer⟩ := ih (m / 10)
      have tens : (m : ℚ) = (m / 10 : Nat) * 10 := by
        exact_mod_cast (Nat.div_mul_cancel (Nat.dvd_of_mod_eq_zero zero)).symm
      refine ⟨?_, by omega⟩
      rw [same, amount, amount, pow_succ, tens]
      field_simp
    case isFalse => exact ⟨rfl, le_rfl⟩

theorem stripPlaces {m zeros : Nat} (divides : 10 ^ zeros ∣ m) (places : Nat) :
    (strip m places).2 ≤ places - zeros := by
  induction places generalizing m zeros with
  | zero => exact Nat.zero_le _
  | succ places ih =>
    cases zeros with
    | zero => exact (stripAmount m (places + 1)).2
    | succ zeros =>
      have ten : 10 ∣ m := dvd_trans (dvd_pow_self 10 (Nat.succ_ne_zero zeros)) divides
      have fewer : 10 ^ zeros ∣ m / 10 := (Nat.dvd_div_iff_mul_dvd ten).mpr (by rwa [Nat.mul_comm, ← Nat.pow_succ])
      rw [strip, if_pos (Nat.mod_eq_zero_of_dvd ten)]
      have := ih fewer
      omega

theorem sumExact {a b : Nat × Nat} {places : Nat} (left : a.2 ≤ places) (right : b.2 ≤ places)
    (room : (amount a + amount b) * 10 ^ places < 2 ^ 96) :
    ∃ x, sum? a b = some x ∧ x.2 ≤ places ∧ amount x = amount a + amount b := by
  have fine : max a.2 b.2 ≤ places := max_le left right
  generalize scale : max a.2 b.2 = s at fine
  generalize total : a.1 * 10 ^ (s - a.2) + b.1 * 10 ^ (s - b.2) = t
  have value : (t : ℚ) = (amount a + amount b) * 10 ^ s := by
    rw [add_mul, amountScaled a (scale ▸ Nat.le_max_left ..), amountScaled b (scale ▸ Nat.le_max_right ..), ← total]
    push_cast
    rfl
  have below : t < 2 ^ 96 := by
    have grows : (amount a + amount b) * 10 ^ s ≤ (amount a + amount b) * 10 ^ places := by
      unfold amount
      gcongr
      norm_num
    exact_mod_cast value ▸ lt_of_le_of_lt grows room
  refine ⟨(t, s), ?_, fine, ?_⟩
  · simp only [sum?, scale, total, List.range_succ_eq_map, List.map_cons, Nat.pow_zero, roundDivOne, Nat.sub_zero]
    rw [List.find?_cons_of_pos (by simpa using below)]
  · rw [amount, value]
    field_simp

theorem widenExact (m n : Nat) (room : m < 2 ^ 96) :
    (widen m n).2 ≤ n ∧ (widen m n).1 = m * 10 ^ (n - (widen m n).2) ∧ (widen m n).1 < 2 ^ 96 ∧
      (m * 10 ^ n < 2 ^ 96 → (widen m n).2 = 0) := by
  induction n generalizing m with
  | zero => exact ⟨le_rfl, (Nat.mul_one m).symm, room, fun _ => rfl⟩
  | succ n ih =>
    rw [widen]
    split
    case isTrue wider =>
      obtain ⟨fewer, value, below, all⟩ := ih (m * 10) wider
      refine ⟨by omega, ?_, below, fun fits => all ?_⟩
      · rw [value, Nat.succ_sub fewer, Nat.pow_succ']
        ring
      · rwa [Nat.mul_assoc, ← Nat.pow_succ']
    case isFalse narrow =>
      refine ⟨le_rfl, by simp, room, fun fits => absurd ?_ narrow⟩
      refine Nat.lt_of_le_of_lt (Nat.mul_le_mul_left m ?_) fits
      exact Nat.le_self_pow (Nat.succ_ne_zero n) 10

theorem rescaleExact {x : Nat × Nat} {target : Nat} (room : x.1 < 2 ^ 96) (fine : x.2 ≤ min target 28) :
    let y := rescale x.1 x.2 target
    amount y = amount x ∧ x.2 ≤ y.2 ∧ y.2 ≤ min target 28 ∧ y.1 < 2 ^ 96 ∧
      (x.1 * 10 ^ (min target 28 - x.2) < 2 ^ 96 → y.2 = min target 28) := by
  intro y
  by_cases none : x.1 = 0
  · have zero : y = (0, min target 28) := by simp only [y, rescale, none, if_true]
    rw [zero]
    exact ⟨by simp [amount, none], fine, le_rfl, by norm_num, fun _ => rfl⟩
  · have wide : y = ((widen x.1 (min target 28 - x.2)).1, min target 28 - (widen x.1 (min target 28 - x.2)).2) := by
      simp only [y, rescale, none, if_false, if_neg (Nat.not_lt.mpr fine)]
    obtain ⟨fewer, value, below, all⟩ := widenExact x.1 (min target 28 - x.2) room
    generalize widen x.1 (min target 28 - x.2) = w at *
    rw [wide]
    refine ⟨?_, by dsimp only; omega, Nat.sub_le .., below, fun fits => by rw [all fits, Nat.sub_zero]⟩
    have places : min target 28 - w.2 = x.2 + (min target 28 - x.2 - w.2) := by omega
    rw [amount, amount, value, places, pow_add]
    push_cast
    field_simp

theorem rescaleMade (negative : Bool) {x : Nat × Nat} {places target : Nat} (held : places ≤ 28)
    (shown : places ≤ target) (few : x.2 ≤ places) (room : amount x * 10 ^ places < 2 ^ 96) :
    ∃ d, make? negative (rescale x.1 x.2 target).1 (rescale x.1 x.2 target).2 = some d ∧ d.negative = negative ∧
      amount (d.mantissa, d.scale) = amount x ∧ (target = places → d.scale = places) := by
  have digits := amountRoom few room
  have fewer : x.1 < 2 ^ 96 := Nat.lt_of_le_of_lt (Nat.le_mul_of_pos_right _ (Nat.pow_pos (by decide))) digits
  have fine : x.2 ≤ min target 28 := le_min (few.trans shown) (few.trans held)
  obtain ⟨same, _, scale, below, all⟩ := rescaleExact fewer fine
  have bound := scale.trans (min_le_right ..)
  refine ⟨⟨negative, _, _, below, bound⟩, dif_pos ⟨below, bound⟩, rfl, same, fun exact => ?_⟩
  have least : min target 28 = places := by rw [exact, min_eq_left held]
  rw [least] at all
  exact all digits

theorem rescaleScale (m scale target : Nat) : (rescale m scale target).2 ≤ target := by
  unfold rescale
  dsimp only
  split
  · exact Nat.min_le_left ..
  · split
    · exact Nat.min_le_left ..
    · exact Nat.le_trans (Nat.sub_le ..) (Nat.min_le_left ..)

end Decimal

namespace Numeric

open Decimal (Within)

variable {groups : List Nat}

theorem magnitudeNonneg (weight : Int) (groups : List Nat) : 0 ≤ magnitude weight groups := by
  induction groups generalizing weight with
  | nil => exact le_rfl
  | cons group rest ih =>
    exact add_nonneg (mul_nonneg (Nat.cast_nonneg group) (zpow_nonneg (by norm_num) weight)) (ih _)

theorem magnitudeBelow (small : ∀ group ∈ groups, group < 10000) (weight : Int) :
    magnitude weight groups < 10000 ^ (weight + 1) := by
  induction groups generalizing weight with
  | nil => exact zpow_pos (by norm_num) _
  | cons group rest ih =>
    obtain ⟨first, others⟩ := List.forall_mem_cons.mp small
    have below := ih others (weight - 1)
    have whole : (group : ℚ) + 1 ≤ 10000 := by exact_mod_cast first
    rw [Int.sub_add_cancel] at below
    calc magnitude weight (group :: rest) < group * 10000 ^ weight + 10000 ^ weight := by
          rw [magnitude]
          gcongr
      _ = (group + 1) * 10000 ^ weight := by ring
      _ ≤ 10000 * 10000 ^ weight := mul_le_mul_of_nonneg_right whole (zpow_nonneg (by norm_num) weight)
      _ = 10000 ^ (weight + 1) := by
          rw [zpow_add_one₀ (by norm_num)]
          ring

theorem magnitudeShift (weight e : Int) (groups : List Nat) :
    magnitude (weight + e) groups = magnitude weight groups * 10000 ^ e := by
  induction groups generalizing weight with
  | nil => simp [magnitude]
  | cons group rest ih =>
    have next : weight + e - 1 = weight - 1 + e := by omega
    rw [magnitude, next, ih, magnitude, zpow_add₀ (by norm_num)]
    ring

theorem magnitudeAppend (weight : Int) (front back : List Nat) :
    magnitude weight (front ++ back) = magnitude weight front + magnitude (weight - front.length) back := by
  induction front generalizing weight with
  | nil => simp [magnitude]
  | cons group rest ih =>
    have next : weight - 1 - (rest.length : Int) = weight - ((group :: rest).length : Nat) := by
      rw [List.length_cons]
      omega
    rw [List.cons_append, magnitude, ih, next, magnitude]
    ring

theorem wholePartExact {n : Nat}
    (room : (n : ℚ) * 10000 ^ groups.length + magnitude (groups.length - 1) groups < 2 ^ 96) :
    ∃ w, wholePart? n groups = some w ∧
      (w : ℚ) = n * 10000 ^ groups.length + magnitude (groups.length - 1) groups := by
  induction groups generalizing n with
  | nil => exact ⟨n, rfl, by simp [magnitude]⟩
  | cons group rest ih =>
    have last : ((group :: rest).length : Int) - 1 = rest.length := by
      rw [List.length_cons]
      omega
    have next :
        (n : ℚ) * 10000 ^ (group :: rest).length + magnitude ((group :: rest).length - 1 : Int) (group :: rest) =
        (n * 10000 + group : Nat) * 10000 ^ rest.length + magnitude (rest.length - 1 : Int) rest := by
      rw [last, magnitude, List.length_cons, zpow_natCast, pow_succ]
      push_cast
      ring
    rw [next] at room ⊢
    have below : n * 10000 + group < 2 ^ 96 := by
      have one : (1 : ℚ) ≤ 10000 ^ rest.length := one_le_pow₀ (by norm_num)
      have rational : ((n * 10000 + group : Nat) : ℚ) < 2 ^ 96 := by
        refine lt_of_le_of_lt ?_ room
        exact le_add_of_le_of_nonneg (le_mul_of_one_le_right (by positivity) one) (magnitudeNonneg ..)
      exact_mod_cast rational
    rw [wholePart?, if_pos below]
    exact ih room

theorem partNone {n m : Nat} {q : ℚ} (sum : (n : ℚ) = m + q) (nonneg : 0 ≤ q) (part : q < 1) : n = m ∧ q = 0 := by
  have under : (m : ℚ) ≤ n := by linarith
  have above : (n : ℚ) < (m + 1 : Nat) := by
    push_cast
    linarith
  have same : n = m := Nat.le_antisymm (Nat.lt_succ_iff.mp (by exact_mod_cast above)) (by exact_mod_cast under)
  exact ⟨same, by rw [same] at sum; linarith⟩

theorem placeOfGroup (k : Nat) : (10000 : ℚ) ^ (-k : Int) = ((10 : ℚ) ^ (4 * k))⁻¹ := by
  rw [zpow_neg, zpow_natCast, pow_mul]
  norm_num

theorem groupWithin {k places group : Nat} (small : ∀ other ∈ groups, other < 10000)
    (within : Within places (magnitude (-k) (group :: groups))) :
    Within places (magnitude (-(k + 1 : Nat)) groups) ∧ 10 ^ (4 * k - places) ∣ group := by
  have next : (-k : Int) - 1 = -(k + 1 : Nat) := by omega
  have nonneg := magnitudeNonneg (-(k + 1 : Nat)) groups
  have below := magnitudeBelow small (-(k + 1 : Nat))
  rw [show (-(k + 1 : Nat) : Int) + 1 = -k by omega, placeOfGroup] at below
  rw [magnitude, next, placeOfGroup] at within
  generalize magnitude (-(k + 1 : Nat)) groups = q at *
  by_cases before : 4 * k ≤ places
  · have split : (10 : ℚ) ^ places = 10 ^ (4 * k) * 10 ^ (places - 4 * k) := by
      rw [← pow_add, Nat.add_sub_cancel' before]
    refine ⟨within.rest (m := group * 10 ^ (places - 4 * k)) ?_ nonneg, by simp [Nat.sub_eq_zero_of_le before]⟩
    rw [split]
    push_cast
    field_simp
  · have split : (10 : ℚ) ^ (4 * k) = 10 ^ places * 10 ^ (4 * k - places) := by
      rw [← pow_add, Nat.add_sub_cancel' (by omega)]
    obtain ⟨n, whole⟩ := within
    have sum : ((n * 10 ^ (4 * k - places) : Nat) : ℚ) = group + q * 10 ^ (4 * k) := by
      push_cast
      rw [← whole, split]
      field_simp
    have part : q * 10 ^ (4 * k) < 1 := by
      rw [← lt_div_iff₀ (by positivity), one_div]
      exact below
    obtain ⟨same, none⟩ := partNone sum (by positivity) part
    have zero : q = 0 := (mul_eq_zero.mp none).resolve_right (by positivity)
    exact ⟨⟨0, by rw [zero, zero_mul, Nat.cast_zero]⟩, Dvd.intro_left n same⟩

theorem fractionExact {x : Nat × Nat} {k places : Nat} (small : ∀ group ∈ groups, group < 10000)
    (held : places ≤ 28) (fine : x.2 ≤ places) (within : Within places (magnitude (-k) groups))
    (room : (Decimal.amount x + magnitude (-k) groups) * 10 ^ places < 2 ^ 96) :
    ∃ y, fraction? x (4 * k) groups = some y ∧ y.2 ≤ places ∧
      Decimal.amount y = Decimal.amount x + magnitude (-k) groups := by
  induction groups generalizing x k with
  | nil => exact ⟨x, rfl, fine, by simp [magnitude]⟩
  | cons group rest ih =>
    obtain ⟨first, others⟩ := List.forall_mem_cons.mp small
    obtain ⟨left, zeros⟩ := groupWithin others within
    have next : (-k : Int) - 1 = -(k + 1 : Nat) := by omega
    have place : Decimal.amount (group, 4 * k) = group * 10000 ^ (-k : Int) := by
      rw [placeOfGroup, Decimal.amount, div_eq_mul_inv]
    rw [magnitude, next, ← place, ← add_assoc] at room ⊢
    have nonneg := magnitudeNonneg (-(k + 1 : Nat)) rest
    rw [fraction?]
    by_cases near : 4 * k ≤ 28
    · obtain ⟨same, _⟩ := Decimal.stripAmount group (4 * k)
      have short : (Decimal.strip group (4 * k)).2 ≤ places :=
        Nat.le_trans (Decimal.stripPlaces zeros (4 * k)) (by omega)
      rw [← same] at room ⊢
      have upTo : (Decimal.amount x + Decimal.amount (Decimal.strip group (4 * k))) * 10 ^ places < 2 ^ 96 := by
        refine lt_of_le_of_lt ?_ room
        exact mul_le_mul_of_nonneg_right (le_add_of_nonneg_right nonneg) (by positivity)
      obtain ⟨y, added, few, sum⟩ := Decimal.sumExact fine short upTo
      rw [← sum] at room ⊢
      rw [if_pos near, added]
      exact ih others few left room
    · have thousands : 10 ^ 4 ∣ group := (Nat.pow_dvd_pow 10 (by omega)).trans zeros
      have none : group = 0 := Nat.eq_zero_of_dvd_of_lt thousands first
      subst none
      have nothing : Decimal.amount x + Decimal.amount (0, 4 * k) = Decimal.amount x := by simp [Decimal.amount]
      rw [nothing] at room ⊢
      rw [if_neg near, if_neg (by omega)]
      exact ih others fine left room

def wholeCount (n : Numeric) : Nat := (n.weight + 1).toNat

def missing (n : Numeric) : Nat := n.wholeCount - n.groups.length

def wholeGroups (n : Numeric) : List Nat := n.groups.take n.wholeCount

def partGroups (n : Numeric) : List Nat := n.groups.drop n.wholeCount

def firstPlace (n : Numeric) : Nat := 1 + (-n.weight - 1).toNat

theorem magnitudeParts (n : Numeric) : magnitude n.weight n.groups =
    magnitude (n.wholeGroups.length - 1) n.wholeGroups * 10000 ^ n.missing +
      magnitude (-n.firstPlace) n.partGroups := by
  obtain ⟨groups, weight, negative, scale⟩ := n
  simp only [wholeGroups, partGroups, wholeCount, missing, firstPlace]
  by_cases before : weight < -1
  · have none : (weight + 1).toNat = 0 := by omega
    have place : (-(1 + (-weight - 1).toNat : Nat) : Int) = weight := by omega
    rw [none, place]
    simp [magnitude]
  by_cases short : groups.length ≤ (weight + 1).toNat
  · have last : ((groups.length : Int) - 1) + ((weight + 1).toNat - groups.length : Nat) = weight := by omega
    rw [List.take_of_length_le short, List.drop_of_length_le short, ← zpow_natCast, ← magnitudeShift, last]
    simp [magnitude]
  · have front : (groups.take (weight + 1).toNat).length = (weight + 1).toNat := by
      rw [List.length_take]
      omega
    have none : (weight + 1).toNat - groups.length = 0 := by omega
    have last : ((weight + 1).toNat : Int) - 1 = weight := by omega
    have first : weight - (weight + 1).toNat = -(1 + (-weight - 1).toNat : Nat) := by omega
    conv_lhs => rw [← List.take_append_drop (weight + 1).toNat groups, magnitudeAppend, front, first]
    rw [front, none, last, pow_zero, mul_one]

theorem toDecimalSteps (n : Numeric) : n.toDecimal? = (do
    let start ← wholePart? 0 n.wholeGroups
    if 7 < n.missing then none
    else
      let start := start * 10 ^ (4 * n.missing)
      if start < 2 ^ 96 then
        let x ← fraction? (start, 0) (4 * n.firstPlace) n.partGroups
        Decimal.make? n.negative (Decimal.rescale x.1 x.2 n.scale).1 (Decimal.rescale x.1 x.2 n.scale).2
      else none) := rfl

theorem startExact (n : Numeric) (room : magnitude n.weight n.groups < 2 ^ 96)
    (near : magnitude n.weight n.groups ≠ 0 ∨ n.weight < n.groups.length + 7) :
    ∃ whole, wholePart? 0 n.wholeGroups = some whole ∧ n.missing ≤ 7 ∧
      whole * 10 ^ (4 * n.missing) < 2 ^ 96 ∧ magnitude n.weight n.groups =
        (whole * 10 ^ (4 * n.missing) : Nat) + magnitude (-n.firstPlace) n.partGroups := by
  have parts := n.magnitudeParts
  have behind := magnitudeNonneg (-n.firstPlace) n.partGroups
  have front := magnitudeNonneg (n.wholeGroups.length - 1) n.wholeGroups
  have less : magnitude (n.wholeGroups.length - 1) n.wholeGroups < 2 ^ 96 := by
    refine lt_of_le_of_lt ?_ room
    rw [parts]
    exact le_add_of_le_of_nonneg (le_mul_of_one_le_right front (one_le_pow₀ (by norm_num))) behind
  obtain ⟨whole, taken, value⟩ := wholePartExact (n := 0) (by rwa [Nat.cast_zero, zero_mul, zero_add])
  rw [Nat.cast_zero, zero_mul, zero_add] at value
  have tens : (10000 : ℚ) ^ n.missing = 10 ^ (4 * n.missing) := by
    rw [pow_mul]
    norm_num
  have sum : magnitude n.weight n.groups =
      (whole * 10 ^ (4 * n.missing) : Nat) + magnitude (-n.firstPlace) n.partGroups := by
    rw [parts, ← value, tens, Nat.cast_mul, Nat.cast_pow, Nat.cast_ofNat]
  have held : whole * 10 ^ (4 * n.missing) < 2 ^ 96 := by
    have : ((whole * 10 ^ (4 * n.missing) : Nat) : ℚ) < 2 ^ 96 := by linarith
    exact_mod_cast this
  refine ⟨whole, taken, ?_, held, sum⟩
  by_contra far
  -- Eight groups of zeros behind a digit are more than 96 bits.
  have open' : ¬n.weight < n.groups.length + 7 := fun _ => far (by unfold missing wholeCount; omega)
  have all : n.groups.length ≤ n.wholeCount := by unfold wholeCount; omega
  have zero : whole = 0 := by
    by_contra digit
    have wide : 10 ^ (4 * 8) ≤ whole * 10 ^ (4 * n.missing) :=
      Nat.le_trans (Nat.pow_le_pow_right (by decide) (by omega)) (Nat.le_mul_of_pos_left _ (Nat.pos_of_ne_zero digit))
    exact absurd (Nat.lt_of_le_of_lt wide held) (by decide)
  refine near.elim (fun some => some ?_) open'
  rw [sum, zero, partGroups, List.drop_of_length_le all]
  simp [magnitude]

theorem toDecimalExact {n : Numeric} {m places : Nat} (small : ∀ group ∈ n.groups, group < 10000) (room : m < 2 ^ 96)
    (held : places ≤ 28) (shown : places ≤ n.scale) (value : magnitude n.weight n.groups * 10 ^ places = m)
    (near : m ≠ 0 ∨ n.weight < n.groups.length + 7) :
    ∃ d, n.toDecimal? = some d ∧ d.negative = n.negative ∧
      Decimal.amount (d.mantissa, d.scale) = magnitude n.weight n.groups ∧ (n.scale = places → d.scale = places) := by
  have nonneg := magnitudeNonneg n.weight n.groups
  have behind := magnitudeNonneg (-n.firstPlace) n.partGroups
  have scaled : magnitude n.weight n.groups * 10 ^ places < 2 ^ 96 := by
    rw [value]
    exact_mod_cast room
  have total : magnitude n.weight n.groups < 2 ^ 96 :=
    lt_of_le_of_lt (le_mul_of_one_le_right nonneg (one_le_pow₀ (by norm_num))) scaled
  have some : m ≠ 0 → magnitude n.weight n.groups ≠ 0 := by
    intro digit none
    rw [none, zero_mul] at value
    exact digit (by exact_mod_cast value.symm)
  obtain ⟨whole, taken, closed, start, parts⟩ := n.startExact total (near.imp_left some)
  have units : Decimal.amount (whole * 10 ^ (4 * n.missing), 0) = (whole * 10 ^ (4 * n.missing) : Nat) := by
    simp [Decimal.amount]
  have within : Within places (magnitude (-n.firstPlace) n.partGroups) :=
    Within.rest (m := whole * 10 ^ (4 * n.missing) * 10 ^ places) ⟨m, parts ▸ value⟩ (by push_cast; rfl) behind
  have others : ∀ group ∈ n.partGroups, group < 10000 := fun group member => small group (List.mem_of_mem_drop member)
  obtain ⟨x, added, few, sum⟩ := fractionExact (x := (whole * 10 ^ (4 * n.missing), 0)) others held (Nat.zero_le _)
    within (by rw [units, ← parts]; exact scaled)
  rw [units, ← parts] at sum
  obtain ⟨d, made, sign, same, scale⟩ := Decimal.rescaleMade n.negative held shown few (sum ▸ scaled)
  refine ⟨d, ?_, sign, same.trans sum, scale⟩
  rw [toDecimalSteps, taken, Option.bind_eq_bind, Option.bind_some, if_neg (by omega), if_pos start, added]
  exact made

theorem toDecimalBounds {n : Numeric} {d : Decimal} (decoded : n.toDecimal? = some d) :
    d.scale ≤ n.scale ∧ n.weight < n.groups.length + 7 := by
  rw [toDecimalSteps, Option.bind_eq_bind, Option.bind_eq_some_iff] at decoded
  obtain ⟨whole, -, decoded⟩ := decoded
  split at decoded
  case isTrue => cases decoded
  case isFalse closed =>
    dsimp only at decoded
    split at decoded
    case isFalse => cases decoded
    case isTrue =>
      rw [Option.bind_eq_bind, Option.bind_eq_some_iff] at decoded
      obtain ⟨x, -, made⟩ := decoded
      unfold Decimal.make? at made
      split at made
      · cases made
        refine ⟨Decimal.rescaleScale .., ?_⟩
        unfold missing wholeCount at closed
        omega
      · cases made

end Numeric
end TableGateway
