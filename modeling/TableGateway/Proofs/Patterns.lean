import TableGateway.Proofs.Rounding

/-! Patterns of finite binary numbers as multiples of a last place. A pattern is read as the multiple that it was
made of, and every ratio nearer to a number than its neighbours are rounds to the pattern of that number. -/
namespace TableGateway

namespace BinaryFormat

variable {f : BinaryFormat}

structure Canonical (f : BinaryFormat) (m : Nat) (q : Int) : Prop where
  least : f.least ≤ q
  below : m < 2 ^ (f.fractionWidth + 1)
  above : q = f.least ∨ 2 ^ f.fractionWidth ≤ m

/-- The ratios around a number that are nearer to it than to its neighbours. The one below a power of two is half
as far away as the one above. -/
structure Owns (f : BinaryFormat) (m : Nat) (q : Int) (r : ℚ) : Prop where
  low : (m - if m = 2 ^ f.fractionWidth ∧ f.least < q then 1 / 4 else 1 / 2) * 2 ^ q ≤ r
  high : r ≤ (m + 1 / 2) * 2 ^ q
  inside : m % 2 = 1 → r ≠ (m - 1 / 2) * 2 ^ q ∧ r ≠ (m + 1 / 2) * 2 ^ q

theorem Owns.half {m : Nat} {q : Int} {r : ℚ} (owns : f.Owns m q r) : (m - 1 / 2 : ℚ) * 2 ^ q ≤ r := by
  refine le_trans ?_ owns.low
  gcongr
  split <;> norm_num

theorem Owns.first {m : Nat} {q : Int} {r : ℚ} (owns : f.Owns m q r) (canonical : f.Canonical m q)
    (other : q ≠ f.least) (less : r < 2 ^ f.fractionWidth * 2 ^ q) : m = 2 ^ f.fractionWidth := by
  refine le_antisymm ?_ (canonical.above.resolve_left other)
  have short : (m - 1 / 2 : ℚ) < 2 ^ f.fractionWidth := by
    by_contra long
    exact not_le.mpr less (le_trans (by gcongr; linarith) owns.half)
  have short : (m : ℚ) < (2 ^ f.fractionWidth + 1 : Nat) := by
    push_cast
    linarith
  exact Nat.lt_succ_iff.mp (by exact_mod_cast short)

section
variable {num den m : Nat} {q : Int} (some : 0 < num) (positive : 0 < den)

include some positive

theorem nearestInside (canonical : f.Canonical m q) (owns : f.Owns m q (num / den))
    (normal : q = f.least ∨ 2 ^ f.fractionWidth * 2 ^ q ≤ (num : ℚ) / den) :
    f.nearest num den = min f.infinity (f.place q m) := by
  have size : (0 : ℚ) < 2 ^ q := by positivity
  have whole : (m : ℚ) + 1 ≤ 2 ^ (f.fractionWidth + 1) := by exact_mod_cast canonical.below
  have binade : f.Binade (num / den) q := by
    refine ⟨canonical.least, lt_of_le_of_lt owns.high ?_, normal⟩
    gcongr
    linarith
  refine nearestAt some positive binade
    ⟨(le_div_iff₀ size).mpr owns.half, (div_le_iff₀ size).mpr owns.high, fun tie => ?_⟩
  by_contra odd
  obtain ⟨above, below⟩ := owns.inside (by omega)
  rw [div_eq_iff size.ne', div_eq_iff size.ne'] at tie
  exact tie.elim above below

theorem nearestBelow (owns : f.Owns m q (num / den)) (first : m = 2 ^ f.fractionWidth) (lower : f.least < q)
    (less : (num : ℚ) / den < 2 ^ f.fractionWidth * 2 ^ q) : f.nearest num den = min f.infinity (f.place q m) := by
  have double : (2 : ℚ) ^ q = 2 * 2 ^ (q - 1) := by
    rw [zpow_sub_one₀ (by norm_num)]
    ring
  have place : f.place (q - 1) (2 ^ (f.fractionWidth + 1)) = f.place q m := by
    have steps : (q - f.least).toNat = (q - 1 - f.least).toNat + 1 := by omega
    rw [BinaryFormat.place, BinaryFormat.place, steps, first, Nat.pow_succ]
    ring
  have low := owns.low
  rw [if_pos ⟨first, lower⟩, first, double] at low
  rw [double] at less
  push_cast at low
  have size : (0 : ℚ) < 2 ^ (q - 1) := by positivity
  have power : (1 : ℚ) ≤ 2 ^ f.fractionWidth := one_le_pow₀ (by norm_num)
  have binade : f.Binade (num / den) (q - 1) :=
    ⟨by omega, by rw [pow_succ]; linarith, .inr (le_trans (by nlinarith) low)⟩
  have rounds : Rounds (num / den / 2 ^ (q - 1)) (2 ^ (f.fractionWidth + 1)) := by
    refine ⟨(le_div_iff₀ size).mpr ?_, (div_le_iff₀ size).mpr ?_, fun _ => by rw [Nat.pow_succ]; omega⟩
    · push_cast
      rw [pow_succ]
      linarith
    · push_cast
      rw [pow_succ]
      linarith
  rw [nearestAt some positive binade rounds, place]

theorem nearestOwned (canonical : f.Canonical m q) (owns : f.Owns m q (num / den)) :
    f.nearest num den = min f.infinity (f.place q m) := by
  by_cases normal : q = f.least ∨ 2 ^ f.fractionWidth * 2 ^ q ≤ (num : ℚ) / den
  · exact nearestInside some positive canonical owns normal
  · obtain ⟨other, less⟩ := not_or.mp normal
    have less := not_le.mp less
    exact nearestBelow some positive owns (owns.first canonical other less)
      (lt_of_le_of_ne canonical.least (Ne.symm other)) less

end

theorem canonicalPlace {n : Nat} {q : Int} (least : f.least ≤ q) (most : n ≤ 2 ^ (f.fractionWidth + 1))
    (above : q = f.least ∨ 2 ^ f.fractionWidth ≤ n) :
    ∃ m p, f.Canonical m p ∧ f.place p m = f.place q n ∧ (m : ℚ) * 2 ^ p = n * 2 ^ q := by
  rcases Nat.lt_or_eq_of_le most with below | rfl
  · exact ⟨n, q, ⟨least, below, above⟩, rfl, rfl⟩
  · have grows : 2 ^ f.fractionWidth < 2 ^ (f.fractionWidth + 1) := Nat.pow_lt_pow_succ (by decide)
    refine ⟨2 ^ f.fractionWidth, q + 1, ⟨by omega, grows, .inr le_rfl⟩, ?_, ?_⟩
    · have steps : (q + 1 - f.least).toNat = (q - f.least).toNat + 1 := by omega
      rw [BinaryFormat.place, BinaryFormat.place, steps, Nat.pow_succ]
      ring
    · rw [zpow_add_one₀ (by norm_num)]
      push_cast
      ring

theorem signBitLarge (f : BinaryFormat) : f.infinity < f.signBit := by
  have powers : f.signBit = 2 ^ f.exponentWidth * 2 ^ f.fractionWidth := Nat.pow_add ..
  have some : 0 < 2 ^ f.fractionWidth := Nat.pow_pos (by decide)
  have most : 0 < 2 ^ f.exponentWidth := Nat.pow_pos (by decide)
  rw [powers, infinity]
  exact Nat.mul_lt_mul_of_pos_right (by omega) some

theorem widthTwice (f : BinaryFormat) : 2 ^ f.width = 2 * f.signBit := by
  rw [width, signBit, Nat.add_assoc, Nat.pow_add]

end BinaryFormat

namespace Binary

variable {f : BinaryFormat}

theorem ofPatternBits {negative : Bool} {pattern : Nat} (small : pattern < f.signBit) :
    (ofPattern f negative pattern).bits.toNat = pattern + if negative then f.signBit else 0 := by
  rw [ofPattern, BitVec.toNat_ofNat, f.widthTwice]
  apply Nat.mod_eq_of_lt
  split <;> omega

theorem patternOfPattern {negative : Bool} {pattern : Nat} (small : pattern < f.signBit) :
    (ofPattern f negative pattern).pattern = pattern := by
  rw [Binary.pattern, ofPatternBits small]
  cases negative
  · exact Nat.mod_eq_of_lt small
  · rw [if_pos rfl, Nat.add_mod_right, Nat.mod_eq_of_lt small]

theorem negativeOfPattern {negative : Bool} {pattern : Nat} (small : pattern < f.signBit) :
    (ofPattern f negative pattern).negative = negative := by
  rw [Binary.negative, ofPatternBits small]
  cases negative
  · simpa using small
  · simp

theorem ofPatternOwn (x : Binary f) : ofPattern f x.negative x.pattern = x := by
  have room := x.bits.isLt
  have positive : 0 < f.signBit := Nat.pow_pos (by decide)
  rw [f.widthTwice] at room
  have own : x.pattern + (if x.negative then f.signBit else 0) = x.bits.toNat := by
    unfold pattern negative
    by_cases signed : f.signBit ≤ x.bits.toNat
    · rw [if_pos (decide_eq_true signed), Nat.mod_eq_sub_mod signed, Nat.mod_eq_of_lt (by omega)]
      omega
    · rw [if_neg (by simpa using signed), Nat.mod_eq_of_lt (by omega)]
      rfl
  rw [ofPattern, own, BitVec.ofNat_toNat, BitVec.setWidth_eq]

theorem readingFinite {x : Binary f} {negative : Bool} {m : Nat} {q : Int}
    (reading : x.reading = .finite negative m q) :
    x.negative = negative ∧ f.Canonical m q ∧ x.pattern = f.place q m ∧ x.pattern < f.infinity := by
  have parts := Nat.div_add_mod' x.pattern (2 ^ f.fractionWidth)
  have small := Nat.mod_lt x.pattern (show 0 < 2 ^ f.fractionWidth from Nat.pow_pos (by decide))
  unfold Binary.reading at reading
  generalize x.pattern / 2 ^ f.fractionWidth = exponent at parts reading
  generalize x.pattern % 2 ^ f.fractionWidth = fraction at parts small reading
  dsimp only at reading
  split at reading
  · cases reading
  · split at reading
    · cases reading
    · split at reading
      case isTrue zero =>
        cases reading
        refine ⟨rfl, ⟨le_rfl, by rw [Nat.pow_succ]; omega, .inl rfl⟩, ?_, by omega⟩
        simp [BinaryFormat.place, ← parts, zero]
      case isFalse normal =>
        cases reading
        refine ⟨rfl, ⟨by omega, by rw [Nat.pow_succ]; omega, .inr (Nat.le_add_right ..)⟩, ?_, by omega⟩
        have steps : (f.least + (exponent : Int) - 1 - f.least).toNat + 1 = exponent := by omega
        rw [BinaryFormat.place, ← parts]
        conv_lhs => rw [← steps, Nat.add_mul]
        omega

theorem readingPlace {negative : Bool} {m : Nat} {q : Int} (canonical : f.Canonical m q)
    (finite : f.place q m < f.infinity) : (ofPattern f negative (f.place q m)).reading = .finite negative m q := by
  have positive : 0 < 2 ^ f.fractionWidth := Nat.pow_pos (by decide)
  have small := Nat.lt_trans finite f.signBitLarge
  have low := canonical.least
  have high := canonical.below
  rw [Nat.pow_succ] at high
  unfold Binary.reading
  rw [patternOfPattern small, negativeOfPattern small]
  dsimp only
  rw [if_neg (by omega), if_neg (by omega)]
  by_cases subnormal : m < 2 ^ f.fractionWidth
  · have last : q = f.least := canonical.above.resolve_right (by omega)
    have own : f.place q m = m := by simp [BinaryFormat.place, last]
    rw [own, Nat.div_eq_of_lt subnormal, if_pos rfl, Nat.mod_eq_of_lt subnormal, last]
  · have parts : f.place q m = (q - f.least).toNat.succ * 2 ^ f.fractionWidth + (m - 2 ^ f.fractionWidth) := by
      rw [BinaryFormat.place, Nat.succ_mul]
      omega
    have exponent : f.place q m / 2 ^ f.fractionWidth = (q - f.least).toNat.succ := by
      rw [parts, Nat.mul_comm, Nat.mul_add_div positive, Nat.div_eq_of_lt (by omega), Nat.add_zero]
    have fraction : f.place q m % 2 ^ f.fractionWidth = m - 2 ^ f.fractionWidth := by
      rw [parts, Nat.mul_comm, Nat.mul_add_mod, Nat.mod_eq_of_lt (by omega)]
    rw [exponent, fraction, if_neg (Nat.succ_ne_zero _)]
    congr 1 <;> omega

theorem finiteReading {x : Binary f} (finite : x.isFinite) : ∃ negative m q, x.reading = .finite negative m q := by
  have below : x.pattern < f.infinity := of_decide_eq_true finite
  unfold Binary.reading
  dsimp only
  rw [if_neg (by omega), if_neg (by omega)]
  split
  · exact ⟨_, _, _, rfl⟩
  · exact ⟨_, _, _, rfl⟩

theorem isFiniteReading {x : Binary f} {negative : Bool} {m : Nat} {q : Int}
    (reading : x.reading = .finite negative m q) : x.isFinite := by
  obtain ⟨-, -, -, finite⟩ := readingFinite reading
  exact decide_eq_true finite

theorem ofPatternReading {x : Binary f} {negative : Bool} {m : Nat} {q : Int}
    (reading : x.reading = .finite negative m q) : ofPattern f negative (f.place q m) = x := by
  obtain ⟨sign, -, pattern, -⟩ := readingFinite reading
  rw [← sign, ← pattern, ofPatternOwn]

theorem ofRatioExact {num den m : Nat} {q : Int} (some : 0 < num) (positive : 0 < den) (canonical : f.Canonical m q)
    (finite : f.place q m < f.infinity) (owns : f.Owns m q (num / den)) (negative : Bool) :
    ofRatio f negative num den = ofPattern f negative (f.place q m) := by
  rw [ofRatio, BinaryFormat.nearestOwned some positive canonical owns, Nat.min_eq_right (Nat.le_of_lt finite)]

theorem ofRatioReading {num den : Nat} (some : 0 < num) (positive : 0 < den) (finite : f.nearest num den < f.infinity)
    (negative : Bool) :
    ∃ (m n : Nat) (p q : Int), (ofRatio f negative num den).reading = .finite negative m p ∧
      (m : ℚ) * 2 ^ p = n * 2 ^ q ∧ f.Binade (num / den) q ∧ Rounds (num / den / 2 ^ q) n := by
  obtain ⟨q, n, binade, rounds, nearest⟩ := f.nearestPlace some positive
  have kept : f.nearest num den = f.place q n := by omega
  have above : q = f.least ∨ 2 ^ f.fractionWidth ≤ n := by
    rcases eq_or_lt_of_le binade.least with last | normal
    · exact .inl last.symm
    · exact .inr (binade.atLeast rounds normal)
  obtain ⟨m, p, canonical, place, same⟩ := BinaryFormat.canonicalPlace binade.least (binade.atMost rounds) above
  refine ⟨m, n, p, q, ?_, same, binade, rounds⟩
  rw [ofRatio, kept, ← place]
  exact readingPlace canonical (by omega)

end Binary
end TableGateway
