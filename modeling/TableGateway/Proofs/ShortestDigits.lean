import TableGateway.Number.Shortest
import TableGateway.Proofs.Patterns

/-! The search for the shortest digits ends with a decimal that rounds to the number it was started from. The grids
that it tries end with one that is finer than the interval of the number, so that it never gives up. -/
namespace TableGateway

theorem roundDivNext (tie : Tie) (num den : Nat) :
    roundDiv tie num den = num / den ∨ roundDiv tie num den = num / den + 1 := by
  unfold roundDiv
  dsimp only
  split
  · exact .inl rfl
  · split
    · exact .inr rfl
    · cases tie with
      | up => exact .inr rfl
      | even => dsimp only; omega

namespace Shortest
namespace Interval

structure Proper (i : Interval) : Prop where
  low : i.low + 1 ≤ i.value
  high : i.value < i.high
  unit : 0 < i.unit
  grain : 0 < i.grain

variable {i : Interval} (proper : i.Proper)
include proper

theorem floorHolds {scale : Int} (fine : (i.steps scale).1 ≤ (i.steps scale).2) :
    i.holds scale (i.floor scale) = true := by
  have some : 0 < (i.steps scale).2 := Nat.mul_pos proper.unit (Nat.pow_pos (by decide))
  have positive : 0 < (i.steps scale).1 := Nat.mul_pos proper.grain (Nat.pow_pos (by decide))
  unfold holds floor
  generalize i.steps scale = steps at fine some positive
  obtain ⟨grid, unit⟩ := steps
  have below := Nat.div_mul_le_self (i.value * unit) grid
  have above := Nat.lt_div_mul_add (a := i.value * unit) positive
  have low := Nat.mul_le_mul_right unit proper.low
  have high := Nat.mul_lt_mul_of_pos_right proper.high some
  rw [Nat.add_mul] at low
  dsimp only at fine above high ⊢
  split <;> simp only [decide_eq_true_eq] <;> omega

omit proper in
theorem pointHolds {tie : Tie} {scale : Int} {c : Nat} (found : i.point? tie scale = some c) :
    i.holds scale c = true := by
  unfold point? at found
  dsimp only at found
  split at found
  case h_1 here next =>
    cases found
    rcases roundDivNext tie (i.value * (i.steps scale).2) (i.steps scale).1 with down | up
    · rw [down]
      exact here
    · rw [up]
      exact next
  case h_2 here _ =>
    cases found
    exact here
  case h_3 _ next =>
    cases found
    exact next
  case h_4 => cases found

theorem pointFound {tie : Tie} {scale : Int} (missing : i.point? tie scale = none) :
    (i.steps scale).2 < (i.steps scale).1 := by
  by_contra fine
  have here := floorHolds proper (not_lt.mp fine)
  unfold point? at missing
  dsimp only at missing
  split at missing
  case h_4 none _ => exact absurd here (by rw [none]; decide)
  all_goals cases missing

theorem searchHolds (tie : Tie) {scale : Int} {fuel : Nat}
    (fine : (i.steps (scale - fuel)).1 ≤ (i.steps (scale - fuel)).2) :
    ∃ c e, i.search tie scale (fuel + 1) = ⟨c, e⟩ ∧ i.holds e c = true ∧ scale - fuel ≤ e ∧ e ≤ scale ∧
      (e = scale ∨ (i.steps (e + 1)).2 < (i.steps (e + 1)).1) := by
  induction fuel generalizing scale with
  | zero =>
    cases found : i.point? tie scale with
    | some c => exact ⟨c, scale, by simp [search, found], pointHolds found, by omega, le_rfl, .inl rfl⟩
    | none =>
      have coarse := pointFound proper found
      simp only [Nat.cast_zero, Int.sub_zero] at fine
      omega
  | succ fuel ih =>
    cases found : i.point? tie scale with
    | some c => exact ⟨c, scale, by simp [search, found], pointHolds found, by omega, le_rfl, .inl rfl⟩
    | none =>
      have lower : scale - 1 - (fuel : Int) = scale - (fuel + 1 : Nat) := by omega
      obtain ⟨c, e, result, holds, low, high, coarse⟩ := @ih (scale - 1) (lower ▸ fine)
      refine ⟨c, e, ?_, holds, by omega, by omega, .inr ?_⟩
      · rw [search, found]
        exact result
      · rcases coarse with rfl | coarse
        · rw [Int.sub_add_cancel]
          exact pointFound proper found
        · exact coarse

end Interval

section
variable {f : BinaryFormat} {m : Nat} {q : Int}

theorem intervalProper (some : 0 < m) (f : BinaryFormat) (q : Int) : (interval f m q).Proper := by
  refine ⟨?_, Nat.lt_add_of_pos_right (by decide), Nat.pow_pos (by decide), Nat.pow_pos (by decide)⟩
  simp only [interval]
  split <;> omega

theorem stepsRatio (v c : Nat) (scale : Int) :
    (v * ((interval f m q).steps scale).2 ≤ c * ((interval f m q).steps scale).1 ↔
      (v : ℚ) * 2 ^ (q - 2) ≤ c * 10 ^ scale) ∧
    (c * ((interval f m q).steps scale).1 ≤ v * ((interval f m q).steps scale).2 ↔
      (c : ℚ) * 10 ^ scale ≤ v * 2 ^ (q - 2)) := by
  have down : -(q - 2) = 2 - q := by omega
  have unit : ((v * ((interval f m q).steps scale).2 : Nat) : ℚ) = v * 2 ^ (q - 2).toNat * 10 ^ (-scale).toNat := by
    simp only [Interval.steps, interval]
    push_cast
    ring
  have grid : ((c * ((interval f m q).steps scale).1 : Nat) : ℚ) = c * 10 ^ scale.toNat * 2 ^ (2 - q).toNat := by
    simp only [Interval.steps, interval]
    push_cast
    ring
  rw [splitPower (by norm_num : (2 : ℚ) ≠ 0), splitPower (by norm_num : (10 : ℚ) ≠ 0), down, mul_div_assoc',
    mul_div_assoc', div_le_div_iff₀ (by positivity) (by positivity), div_le_div_iff₀ (by positivity) (by positivity),
    ← unit, ← grid, Nat.cast_le, Nat.cast_le]
  exact ⟨Iff.rfl, Iff.rfl⟩

theorem quarterPlace (q : Int) : (2 : ℚ) ^ q = 4 * 2 ^ (q - 2) := by
  rw [zpow_sub₀ (by norm_num)]
  norm_num
  ring

theorem holdsBounds {c : Nat} {scale : Int} (holds : (interval f m q).holds scale c = true) :
    ((interval f m q).low : ℚ) * 2 ^ (q - 2) ≤ c * 10 ^ scale ∧
      c * 10 ^ scale ≤ ((interval f m q).high : ℚ) * 2 ^ (q - 2) ∧
      (m % 2 = 1 → ((interval f m q).low : ℚ) * 2 ^ (q - 2) < c * 10 ^ scale ∧
        c * 10 ^ scale < ((interval f m q).high : ℚ) * 2 ^ (q - 2)) := by
  have low (v : Nat) := (stepsRatio (f := f) (m := m) (q := q) v c scale).1
  have high (v : Nat) := (stepsRatio (f := f) (m := m) (q := q) v c scale).2
  unfold Interval.holds at holds
  dsimp only at holds
  rw [← low, ← high, ← not_le, ← not_le, ← low, ← high, not_le, not_le]
  split at holds
  case isTrue closed =>
    have even : m % 2 = 0 := of_decide_eq_true closed
    obtain ⟨above, below⟩ := of_decide_eq_true holds
    exact ⟨above, below, fun odd => by omega⟩
  case isFalse =>
    obtain ⟨above, below⟩ := of_decide_eq_true holds
    exact ⟨above.le, below.le, fun _ => ⟨above, below⟩⟩

theorem intervalLow (some : 0 < m) : ((interval f m q).low : ℚ) =
    4 * (m - if m = 2 ^ f.fractionWidth ∧ f.least < q then 1 / 4 else 1 / 2) := by
  simp only [interval]
  split
  · rw [Nat.cast_sub (by omega)]
    push_cast
    ring
  · rw [Nat.cast_sub (by omega)]
    push_cast
    ring

theorem holdsOwns (some : 0 < m) {c : Nat} {scale : Int} (holds : (interval f m q).holds scale c = true) :
    f.Owns m q (c * 10 ^ scale) := by
  obtain ⟨above, below, inside⟩ := holdsBounds holds
  have bottom : ((interval f m q).low : ℚ) = _ := intervalLow some
  have top : ((interval f m q).high : ℚ) = 4 * m + 2 := by simp [interval]
  have least : (4 * m - 2 : ℚ) ≤ (interval f m q).low := by
    rw [bottom]
    split <;> linarith
  have size : (0 : ℚ) < 2 ^ (q - 2) := by positivity
  rw [top] at below inside
  refine ⟨?_, ?_, fun odd => ?_⟩
  · rw [bottom] at above
    rw [quarterPlace]
    linarith
  · rw [quarterPlace]
    linarith
  · obtain ⟨more, less⟩ := inside odd
    have half := mul_le_mul_of_nonneg_right least size.le
    rw [quarterPlace]
    exact ⟨by nlinarith, by nlinarith⟩

end

def under (p q : Int) : Bool := 10 ^ p.toNat * 2 ^ (-q).toNat ≤ 2 ^ q.toNat * 10 ^ (-p).toNat

theorem underIff (p q : Int) : under p q = true ↔ (10 : ℚ) ^ p ≤ 2 ^ q := by
  rw [splitPower (by norm_num : (10 : ℚ) ≠ 0), splitPower (by norm_num : (2 : ℚ) ≠ 0),
    div_le_div_iff₀ (by positivity) (by positivity), under, decide_eq_true_eq]
  exact_mod_cast Iff.rfl

theorem lastFine : ∀ k < 2046, under (((53 + ((k : Nat) - 1074 : Int)) * 30103 / 100000) - 18) (k - 1074 - 2) := by
  decide +kernel

theorem firstCoarse :
    ∀ k < 2046, under (((1 + ((k : Nat) - 1074 : Int)) * 30103 / 100000) + 2) (k - 1074 - 2) = false := by
  decide +kernel

section
variable {f : BinaryFormat} {m c : Nat} {q e : Int}

theorem ownedSome (owns : f.Owns m q (c * 10 ^ e)) (some : 0 < m) : 0 < c := by
  rcases Nat.eq_zero_or_pos c with rfl | positive
  · have bottom := owns.low
    have place : (0 : ℚ) < 2 ^ q := by positivity
    have whole : (1 : ℚ) ≤ m := by exact_mod_cast some
    rw [Nat.cast_zero, zero_mul] at bottom
    split at bottom <;> nlinarith
  · exact positive

theorem ownedFew (owns : f.Owns m q (c * 10 ^ e)) (below : m < 2 ^ 53) (near : (2 : ℚ) ^ (q - 2) < 10 ^ (e + 1)) :
    c < 2 ^ 59 := by
  have size : (0 : ℚ) < 10 ^ e := by positivity
  have whole : (m : ℚ) + 1 ≤ 2 ^ 53 := by exact_mod_cast below
  have top := owns.high
  rw [zpow_add_one₀ (by norm_num)] at near
  rw [quarterPlace] at top
  have many : (c : ℚ) * 10 ^ e < 10 * (4 * m + 2) * 10 ^ e := by nlinarith
  have few : (c : ℚ) < 2 ^ 59 := by
    have := lt_of_mul_lt_mul_right many size.le
    linarith
  exact_mod_cast few

theorem ownedHigh (owns : f.Owns m q (c * 10 ^ e)) (some : 0 < c) (below : m < 2 ^ 53) (high : q ≤ 971) :
    e ≤ 308 := by
  by_contra large
  have whole : (m : ℚ) + 1 ≤ 2 ^ 53 := by exact_mod_cast below
  have first : (1 : ℚ) ≤ c := by exact_mod_cast some
  have place : (2 : ℚ) ^ q ≤ 2 ^ (971 : Int) := zpow_le_zpow_right₀ (by norm_num) high
  have power : (10 : ℚ) ^ (309 : Int) ≤ 10 ^ e := zpow_le_zpow_right₀ (by norm_num) (by omega)
  have bound : (10 : ℚ) ^ (309 : Int) ≤ 2 ^ (1024 : Int) := by
    calc (10 : ℚ) ^ (309 : Int) ≤ 1 * 10 ^ e := by rw [one_mul]; exact power
      _ ≤ c * 10 ^ e := by gcongr
      _ ≤ (m + 1 / 2) * 2 ^ q := owns.high
      _ ≤ 2 ^ 53 * 2 ^ (971 : Int) := by
        gcongr
        linarith
      _ = 2 ^ (1024 : Int) := by
        rw [← zpow_natCast, ← zpow_add₀ (by norm_num)]
        rfl
  have false : under 309 1024 = false := by decide +kernel
  rw [(underIff _ _).mpr bound] at false
  cases false

end

structure Found (m : Nat) (q : Int) (x : Scientific) : Prop where
  owns : BinaryFormat.double.Owns m q (x.digits * 10 ^ x.exponent)
  some : 0 < x.digits
  few : x.digits < 2 ^ 59
  low : -342 ≤ x.exponent
  high : x.exponent ≤ 308

theorem placeBounds {m : Nat} {q : Int} (canonical : BinaryFormat.double.Canonical m q)
    (finite : BinaryFormat.double.place q m < BinaryFormat.double.infinity) : -1074 ≤ q ∧ q ≤ 971 := by
  have least : -1074 ≤ q := canonical.least
  refine ⟨least, ?_⟩
  by_contra large
  have normal : 2 ^ 52 ≤ m := canonical.above.resolve_left (ne_of_gt (show -1074 < q by omega))
  have steps : 2046 ≤ (q - -1074).toNat := by omega
  have gap := Nat.mul_le_mul_right (2 ^ 52) steps
  have bound : (q - -1074).toNat * 2 ^ 52 + m < (2 ^ 11 - 1) * 2 ^ 52 := finite
  omega

theorem gridRange {m k : Nat} (log : m.log2 < 53) (range : k < 2046) :
    (10 : ℚ) ^ (above m (k - 1074) - (19 : Nat)) ≤ 2 ^ ((k : Int) - 1074 - 2) ∧
      (2 : ℚ) ^ ((k : Int) - 1074 - 2) < 10 ^ (above m (k - 1074) + 1) := by
  have most : above m (k - 1074) - (19 : Nat) ≤ (53 + ((k : Nat) - 1074 : Int)) * 30103 / 100000 - 18 := by
    unfold above
    omega
  have least : (1 + ((k : Nat) - 1074 : Int)) * 30103 / 100000 + 2 ≤ above m (k - 1074) + 1 := by
    unfold above
    omega
  have first := firstCoarse k range
  rw [Bool.eq_false_iff, Ne, underIff, not_le] at first
  exact ⟨le_trans (zpow_le_zpow_right₀ (by norm_num) most) ((underIff _ _).mp (lastFine k range)),
    lt_of_lt_of_le first (zpow_le_zpow_right₀ (by norm_num) least)⟩

theorem digitsFound {m : Nat} {q : Int} (canonical : BinaryFormat.double.Canonical m q) (some : 0 < m)
    (finite : BinaryFormat.double.place q m < BinaryFormat.double.infinity) (tie : Tie) :
    Found m q (digits .double tie m q) := by
  obtain ⟨low, high⟩ := placeBounds canonical finite
  have below : m < 2 ^ 53 := canonical.below
  obtain ⟨k, rfl⟩ : ∃ k : Nat, q = k - 1074 := ⟨(q + 1074).toNat, by omega⟩
  obtain ⟨scale, start⟩ : ∃ scale, scale = above m (k - 1074) := ⟨_, rfl⟩
  obtain ⟨fine, coarse⟩ := gridRange (m := m) (k := k) ((Nat.log2_lt some.ne').mpr below) (by omega)
  rw [← start] at fine coarse
  have steps (e : Int) := (stepsRatio (f := .double) (m := m) (q := k - 1074) 1 1 e).2
  simp only [Nat.cast_one, one_mul] at steps
  obtain ⟨c, e, found, holds, lower, upper, before⟩ :=
    Interval.searchHolds (intervalProper some .double (k - 1074)) tie ((steps _).mpr fine)
  have owns := holdsOwns some holds
  have near : (2 : ℚ) ^ ((k : Int) - 1074 - 2) < 10 ^ (e + 1) := by
    rcases before with rfl | before
    · exact coarse
    · rw [← not_le, steps, not_le] at before
      exact before
  have result : digits .double tie m (k - 1074) = ⟨c, e⟩ := by
    rw [digits, ← start]
    exact found
  rw [result]
  have digit := ownedSome owns some
  exact ⟨owns, digit, ownedFew owns below near, by dsimp only; unfold above at start; omega,
    ownedHigh owns digit below high⟩

end Shortest
end TableGateway
