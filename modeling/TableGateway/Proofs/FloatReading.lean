import TableGateway.Proofs.Drift
import TableGateway.Proofs.JsonNumbers
import TableGateway.Proofs.ShortestDigits

/-! What becomes of a binary number that is printed in a document and read again. Where its digits and its power of ten
are numbers of the format themselves it comes back as it was, and in general it moves by a few units in its last
places. -/
namespace TableGateway

theorem FiniteFloat.unique {x y : FiniteFloat} (same : x.value = y.value) : x = y := by
  cases x
  cases y
  cases same
  rfl

def Binary.number {f : BinaryFormat} (x : Binary f) : ℚ :=
  match x.reading with
  | .finite negative m q => (if negative then -1 else 1) * (m * 2 ^ q)
  | _ => 0

namespace Json
namespace Reader

def product (c k : Nat) : Nat × Nat :=
  ((rounded c 1).1 * (rounded (10 ^ k) 1).1, (rounded c 1).2 * (rounded (10 ^ k) 1).2)

def Overflows (c k : Nat) : Prop :=
  BinaryFormat.double.infinity ≤ BinaryFormat.double.nearest (product c k).1 (product c k).2

instance (c k : Nat) : Decidable (Overflows c k) := inferInstanceAs (Decidable (_ ≤ _))

def mostDigits (k : Nat) : Nat := min ((2 ^ 55 - 6) * 2 ^ 969 / 10 ^ k) (2 ^ 59)

theorem mostDigitsFit : ∀ k < 309, ¬Overflows (mostDigits k) k := by
  decide +kernel

theorem roundedMono {n m : Nat} (some : 0 < n) (le : n ≤ m) (bound : m ≤ 10 ^ 308) :
    ratio (rounded n 1) ≤ ratio (rounded m 1) := by
  have finite {n : Nat} (bound : n ≤ 10 ^ 308) : BinaryFormat.double.nearest n 1 < BinaryFormat.double.infinity :=
    ratioFinite Nat.one_pos (by rw [Nat.cast_one, div_one]; exact Nat.cast_le.mpr bound)
  obtain ⟨p, a, binade, rounds, value, -⟩ := roundedPlace some Nat.one_pos (finite (Nat.le_trans le bound))
  obtain ⟨q, b, binadeToo, roundsToo, valueToo, -⟩ :=
    roundedPlace (Nat.lt_of_lt_of_le some le) Nat.one_pos (finite bound)
  rw [value, valueToo]
  refine BinaryFormat.valueMono binade rounds binadeToo roundsToo ?_
  rw [Nat.cast_one, div_one, div_one]
  exact Nat.cast_le.mpr le

theorem productMono {c d k : Nat} (some : 0 < c) (le : c ≤ d) (few : d ≤ 2 ^ 59) (range : k ≤ 308)
    (fits : ¬Overflows d k) : ¬Overflows c k := by
  have bound (n : Nat) (few : n ≤ 2 ^ 59) : n ≤ 10 ^ 308 := Nat.le_trans (by omega) powerRoom
  obtain ⟨front, den⟩ := wholeClose some (bound c (Nat.le_trans le few))
  obtain ⟨-, denToo⟩ := wholeClose (Nat.lt_of_lt_of_le some le) (bound d few)
  obtain ⟨power, denPower⟩ := powerClose range
  refine not_le.mpr (Nat.lt_of_le_of_lt (BinaryFormat.nearestMono (Nat.mul_pos den denPower)
    (Nat.mul_pos denToo denPower) ?_) (not_le.mp fits))
  have order := mul_le_mul_of_nonneg_right (roundedMono some le (bound d few)) power.positive.le
  rw [← ratioProduct, ← ratioProduct] at order
  exact order

theorem scaledPrepared {y : Scientific} (some : 0 < y.digits) (few : y.digits < 2 ^ 59) (low : -342 ≤ y.exponent)
    (high : y.exponent ≤ 308) (fits : ∀ k : Nat, y.exponent = k → ¬Overflows y.digits k) :
    ∃ x, scaled y.digits y.exponent = .some x ∧ Prepared x y := by
  obtain ⟨c, e⟩ := y
  dsimp only at some few low high fits
  unfold scaled
  dsimp only
  rw [if_neg some.ne', if_neg (by omega)]
  by_cases up : 0 ≤ e
  · obtain ⟨k, rfl⟩ := Int.eq_ofNat_of_zero_le up
    have finite := not_le.mp (fits k rfl)
    rw [if_pos up]
    exact ⟨_, if_pos finite, multiplied some few (by omega) finite⟩
  · rw [if_neg up]
    by_cases once : -308 ≤ e
    · obtain ⟨k, rfl⟩ : ∃ k : Nat, e = -k := ⟨(-e).toNat, by omega⟩
      have exponent : (- -(k : Int)).toNat = k := by omega
      rw [if_pos once, exponent]
      exact ⟨_, rfl, divided some few (by omega)⟩
    · obtain ⟨k, rfl⟩ : ∃ k : Nat, e = -308 - k := ⟨(-e - 308).toNat, by omega⟩
      have exponent : (-(-308 - (k : Int)) - 308).toNat = k := by omega
      rw [if_neg once, if_pos (by omega), exponent]
      exact ⟨_, rfl, dividedTwice some few (by omega)⟩

theorem takenFound {m : Nat} {q : Int} {x : Scientific} (found : Shortest.Found m q x) :
    Shortest.Found m q (taken x) := by
  unfold taken
  split
  case isTrue plain =>
    obtain ⟨positional, whole⟩ := plain
    obtain ⟨k, exponent⟩ := Int.eq_ofNat_of_zero_le whole
    have few := plainFew (of_decide_eq_true positional).2 whole
    have same : ((x.digits * 10 ^ (x.exponent.toNat + 1) : Nat) : ℚ) * 10 ^ (-1 : Int) =
        x.digits * 10 ^ x.exponent := by
      rw [exponent, Int.toNat_natCast, zpow_natCast, zpow_neg_one]
      push_cast
      rw [pow_succ]
      field_simp
    exact ⟨same ▸ found.owns, Nat.mul_pos found.some (Nat.pow_pos (by decide)), by dsimp only; omega,
      by dsimp only; omega, by dsimp only; omega⟩
  case isFalse => exact found

theorem largestDigits : taken (Shortest.digits .double .even (2 ^ 53 - 1) 971) = ⟨17976931348623157, 292⟩ := by
  decide +kernel

theorem largestFits : ¬Overflows 17976931348623157 292 := by
  decide +kernel

theorem ownedRoom {m : Nat} {q : Int} (below : m < 2 ^ 53) (high : q ≤ 971) (other : ¬(m = 2 ^ 53 - 1 ∧ q = 971)) :
    (m + 1 / 2 : ℚ) * 2 ^ q ≤ ((2 ^ 55 - 6) * 2 ^ 969 : Nat) := by
  have digits : ((2 ^ 55 - 6 : Nat) : ℚ) = 2 ^ 55 - 6 := by norm_num
  rw [Nat.cast_mul, digits, Nat.cast_pow, Nat.cast_ofNat]
  obtain ⟨unit, known⟩ : ∃ unit : ℚ, unit = 2 ^ 969 := ⟨_, rfl⟩
  have size : 0 < unit := known ▸ pow_pos (by norm_num) _
  have last : (2 : ℚ) ^ (970 : Int) = 2 * unit := by rw [known, zpow_ofNat, pow_succ, mul_comm]
  rw [← known]
  rcases Int.lt_or_eq_of_le high with lower | rfl
  · have place : (2 : ℚ) ^ q ≤ 2 * unit := last ▸ zpow_le_zpow_right₀ (by norm_num) (by omega)
    have multiple : (m + 1 / 2 : ℚ) ≤ 2 ^ 53 := by
      have : (m : ℚ) + 1 ≤ 2 ^ 53 := by exact_mod_cast below
      linarith
    calc (m + 1 / 2 : ℚ) * 2 ^ q ≤ 2 ^ 53 * (2 * unit) := by gcongr
      _ = 2 ^ 54 * unit := by ring
      _ ≤ (2 ^ 55 - 6) * unit := mul_le_mul_of_nonneg_right (by norm_num) size.le
  · have multiple : (m : ℚ) + 2 ≤ 2 ^ 53 := by exact_mod_cast (by omega : m + 2 ≤ 2 ^ 53)
    have place : (2 : ℚ) ^ (971 : Int) = 4 * unit := by
      rw [show (971 : Int) = 970 + 1 from rfl, zpow_add_one₀ (by norm_num), last]
      ring
    have quarters : (m + 1 / 2 : ℚ) * 4 ≤ 2 ^ 55 - 6 := by
      norm_num at multiple ⊢
      linarith
    rw [place, ← mul_assoc]
    exact mul_le_mul_of_nonneg_right quarters size.le

theorem digitsFit {m : Nat} {q : Int} (canonical : BinaryFormat.double.Canonical m q) (some : 0 < m)
    (finite : BinaryFormat.double.place q m < BinaryFormat.double.infinity) {k : Nat}
    (exponent : (taken (Shortest.digits .double .even m q)).exponent = k) :
    ¬Overflows (taken (Shortest.digits .double .even m q)).digits k := by
  by_cases largest : m = 2 ^ 53 - 1 ∧ q = 971
  · obtain ⟨rfl, rfl⟩ := largest
    rw [largestDigits] at exponent ⊢
    obtain rfl : k = 292 := (Int.ofNat_inj.mp exponent).symm
    exact largestFits
  · have found := takenFound (Shortest.digitsFound canonical some finite .even)
    obtain ⟨-, high⟩ := Shortest.placeBounds canonical finite
    have range : k ≤ 308 := by
      have := found.high
      omega
    have room := le_trans found.owns.high (ownedRoom canonical.below high largest)
    rw [exponent, zpow_natCast] at room
    have least : (taken (Shortest.digits .double .even m q)).digits ≤ mostDigits k := by
      refine le_min ?_ found.few.le
      rw [Nat.le_div_iff_mul_le (Nat.pow_pos (by decide))]
      exact_mod_cast room
    exact productMono found.some least (Nat.min_le_right ..) range (mostDigitsFit k (by omega))

end Reader

def reread (x : FiniteFloat) : FiniteFloat :=
  match x.value.reading with
  | .finite negative m q =>
    let digits := Reader.taken (Shortest.digits .double .even m q)
    match Reader.scaled digits.digits digits.exponent with
    | some (num, den) =>
      let y := Binary.ofRatio .double negative num den
      if h : 0 < m ∧ y.isFinite then ⟨y, h.2⟩ else x
    | none => x
  | _ => x

def unsigned (x : FiniteFloat) : Text :=
  match x.value.reading with
  | .finite _ 0 _ => "0.0"
  | .finite _ m q => FloatStyle.document.layout (Shortest.digits .double .even m q)
  | _ => []

theorem printFloat (x : FiniteFloat) :
    print (.float x) = (if x.value.negative then ['-'] else []) ++ unsigned x := by
  obtain ⟨negative, m, q, reading⟩ := Binary.finiteReading x.finite
  obtain ⟨sign, -⟩ := Binary.readingFinite reading
  rw [print, FloatStyle.print, unsigned, reading, sign]
  cases m <;> rfl

theorem rereadSome {x : FiniteFloat} {negative : Bool} {m : Nat} {q : Int}
    (reading : x.value.reading = .finite negative m q) (some : 0 < m) :
    ∃ pair, Reader.Prepared pair (Reader.taken (Shortest.digits .double .even m q)) ∧
      Reader.scaled (Reader.taken (Shortest.digits .double .even m q)).digits
        (Reader.taken (Shortest.digits .double .even m q)).exponent = .some pair ∧
      (reread x).value = Binary.ofRatio .double negative pair.1 pair.2 := by
  obtain ⟨-, canonical, pattern, finite⟩ := Binary.readingFinite reading
  rw [pattern] at finite
  have found := Reader.takenFound (Shortest.digitsFound canonical some finite .even)
  obtain ⟨pair, scaled, prepared⟩ := Reader.scaledPrepared found.some found.few found.low found.high
    fun k exponent => Reader.digitsFit canonical some finite exponent
  obtain ⟨n, -, p, -, read, -⟩ := Binary.ofRatioReading prepared.some prepared.positive prepared.finite negative
  refine ⟨pair, prepared, scaled, ?_⟩
  unfold reread
  simp only [reading, scaled]
  rw [dif_pos ⟨some, Binary.isFiniteReading read⟩]

theorem rereadZero {x : FiniteFloat} {negative : Bool} {q : Int} (reading : x.value.reading = .finite negative 0 q) :
    reread x = x := by
  unfold reread
  simp only [reading]
  split
  · exact dif_neg fun both => Nat.lt_irrefl 0 both.1
  · rfl

theorem ofFloatFinite (x : FiniteFloat) : ofFloat x.value = .float x := dif_pos x.finite

def isShort (x : FiniteFloat) : Bool :=
  match x.value.reading with
  | .finite _ m q =>
    let digits := Reader.taken (Shortest.digits .double .even m q)
    m = 0 || digits.digits < 2 ^ 53 && digits.exponent.natAbs ≤ 22
  | _ => false

theorem rereadShort {x : FiniteFloat} (short : isShort x) : reread x = x := by
  obtain ⟨negative, m, q, reading⟩ := Binary.finiteReading x.finite
  obtain ⟨-, canonical, pattern, finite⟩ := Binary.readingFinite reading
  rw [pattern] at finite
  rcases Nat.eq_zero_or_pos m with rfl | some
  · exact rereadZero reading
  · obtain ⟨pair, prepared, -, value⟩ := rereadSome reading some
    have found := Reader.takenFound (Shortest.digitsFound canonical some finite .even)
    rw [isShort, reading] at short
    simp only [some.ne', decide_false, Bool.false_or, Bool.and_eq_true, decide_eq_true_eq] at short
    have owns : BinaryFormat.double.Owns m q (Reader.ratio pair) := by
      rw [prepared.exact short.1 short.2]
      exact found.owns
    apply FiniteFloat.unique
    rw [value, Binary.ofRatioExact prepared.some prepared.positive canonical finite owns,
      Binary.ofPatternReading reading]

theorem ownedNear {m : Nat} {q : Int} {r : ℚ} (owns : BinaryFormat.double.Owns m q r) :
    |r - m * 2 ^ q| ≤ 2 ^ q / 2 := by
  have size : (0 : ℚ) < 2 ^ q := by positivity
  have low := owns.low
  have high := owns.high
  rw [abs_le]
  split at low <;> constructor <;> linarith

theorem halfBound {r t h : ℚ} (half : h ≤ r * 2 ^ (-53 : Int) ∨ h = t) (nonneg : 0 ≤ r) (last : 0 ≤ t) :
    h ≤ r * 2 ^ (-53 : Int) + t := by
  have : 0 ≤ r * 2 ^ (-53 : Int) := by positivity
  rcases half with part | rfl <;> linarith

theorem driftBound {x r v y t : ℚ} (positive : 0 ≤ x) (last : 0 ≤ t) (printed : |r - x| ≤ x * 2 ^ (-53 : Int) + t)
    (close : Close Reader.drift v r) (rounded : |y - v| ≤ v * 2 ^ (-53 : Int) + t) :
    |y - x| ≤ x * 2 ^ (-48 : Int) + 4 * t := by
  have below := close.below
  have above := close.above
  rw [Reader.drift] at below above
  rw [abs_le] at *
  norm_num at *
  constructor <;> linarith

theorem rereadNear (x : FiniteFloat) : (reread x).value.negative = x.value.negative ∧
    |(reread x).value.number - x.value.number| ≤ |x.value.number| * 2 ^ (-48 : Int) + 2 ^ (-1073 : Int) := by
  obtain ⟨negative, m, q, reading⟩ := Binary.finiteReading x.finite
  obtain ⟨sign, canonical, pattern, finite⟩ := Binary.readingFinite reading
  rw [pattern] at finite
  rcases Nat.eq_zero_or_pos m with rfl | some
  · rw [rereadZero reading, sub_self, abs_zero]
    exact ⟨rfl, by positivity⟩
  · obtain ⟨pair, prepared, -, value⟩ := rereadSome reading some
    obtain ⟨n, k, p, place, read, same, binade, rounds⟩ :=
      Binary.ofRatioReading prepared.some prepared.positive prepared.finite negative
    have found := Reader.takenFound (Shortest.digitsFound canonical some finite .even)
    have positive : (0 : ℚ) ≤ m * 2 ^ q := by positivity
    have last : (0 : ℚ) ≤ 2 ^ (-1075 : Int) := by positivity
    have above : q = BinaryFormat.double.least ∨ (2 : ℚ) ^ 52 * 2 ^ q ≤ m * 2 ^ q := by
      refine canonical.above.imp id fun normal => ?_
      have normal : (2 : ℚ) ^ 52 ≤ m := by exact_mod_cast normal
      gcongr
    have printed := le_trans (ownedNear found.owns) (halfBound (Reader.halfPlace above) positive last)
    have rounded := le_trans rounds.near (halfBound (Reader.halfPlace binade.above) prepared.close.positive.le last)
    have bound := driftBound positive last printed prepared.close rounded
    have four : (4 : ℚ) * 2 ^ (-1075 : Int) = 2 ^ (-1073 : Int) := by
      rw [show (-1073 : Int) = -1075 + 2 from rfl, zpow_add₀ (by norm_num)]
      ring
    obtain ⟨signRead, -⟩ := Binary.readingFinite read
    rw [value, signRead, sign, Binary.number, Binary.number, read, reading]
    refine ⟨rfl, ?_⟩
    dsimp only
    rw [← mul_sub, abs_mul, abs_mul, same, abs_of_nonneg positive, ← four]
    have unit : |(if negative then (-1 : ℚ) else 1)| = 1 := by
      cases negative <;> simp
    rw [unit, one_mul, one_mul]
    exact bound

namespace Reader

theorem fractionRead (x : FiniteFloat) {rest : Text} (stops : Stops rest) :
    number x.value.negative (unsigned x ++ rest) = .ok (.float (reread x), rest) := by
  obtain ⟨negative, m, q, reading⟩ := Binary.finiteReading x.finite
  obtain ⟨sign, canonical, pattern, finite⟩ := Binary.readingFinite reading
  rw [pattern] at finite
  rcases Nat.eq_zero_or_pos m with rfl | some
  · have last : q = BinaryFormat.double.least := canonical.above.resolve_right (by decide)
    have zero : Binary.ofRatio .double negative 0 1 = x.value := by
      rw [← Binary.ofPatternReading reading, last]
      rfl
    have text : unsigned x = ['0'] ++ '.' :: (List.replicate 0 '0' ++ Text.ofNat 0) := by
      rw [unsigned, reading]
      rfl
    have read := smallRead (n := 0) (by decide) 0 stops negative
    rw [text, rereadZero reading, sign, ← ofFloatFinite, ← zero]
    exact read
  · obtain ⟨pair, prepared, scaled, value⟩ := rereadSome reading some
    have found := Shortest.digitsFound canonical some finite .even
    have low := found.low
    have high := found.high
    have text : unsigned x = FloatStyle.document.layout (Shortest.digits .double .even m q) := by
      unfold unsigned
      rw [reading]
      cases m with
      | zero => cases some
      | succ m => rfl
    rw [text, layoutRead found.some (Nat.lt_trans found.few (by decide)) (by omega) stops, fraction, scaled, sign]
    dsimp only
    rw [← value, ofFloatFinite]

end Reader
end Json
end TableGateway
