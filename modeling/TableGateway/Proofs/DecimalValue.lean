import Mathlib.Algebra.Field.Rat
import Mathlib.Data.List.TakeWhile
import Mathlib.Tactic.FieldSimp
import Mathlib.Tactic.Ring
import TableGateway.Proofs.Wire

/-! The number that a decimal stands for, and the number that the wire stands for. A decimal on its way to the
wire keeps its number, whatever zeros it takes on or drops. -/
namespace TableGateway

def Decimal.value (d : Decimal) : ℚ := (if d.negative then -1 else 1) * d.mantissa / 10 ^ d.scale

namespace Numeric

def magnitude : (weight : Int) → (groups : List Nat) → ℚ
  | _, [] => 0
  | weight, group :: rest => group * 10000 ^ weight + magnitude (weight - 1) rest

def value (n : Numeric) : ℚ := (if n.negative then -1 else 1) * magnitude n.weight n.groups

theorem magnitudeSnoc (weight : Int) (groups : List Nat) (group : Nat) :
    magnitude weight (groups ++ [group]) =
      magnitude weight groups + group * 10000 ^ (weight - groups.length) := by
  induction groups generalizing weight with
  | nil => simp [magnitude]
  | cons first rest ih =>
    have shift : weight - (rest.length + 1 : Nat) = weight - 1 - rest.length := by omega
    rw [List.cons_append, magnitude, ih, magnitude, List.length_cons, shift]
    ring

theorem magnitudeZerosBehind {zeros : List Nat} (none : ∀ group ∈ zeros, group = 0) (weight : Int)
    (groups : List Nat) : magnitude weight (groups ++ zeros) = magnitude weight groups := by
  induction zeros generalizing groups with
  | nil => rw [List.append_nil]
  | cons last rest ih =>
    obtain ⟨rfl, others⟩ := List.forall_mem_cons.mp none
    rw [List.append_cons, ih others, magnitudeSnoc]
    simp

theorem magnitudeZerosBefore (last : Int) (groups : List Nat) :
    magnitude (last + (groups.dropWhile (· = 0)).length) (groups.dropWhile (· = 0)) =
      magnitude (last + groups.length) groups := by
  induction groups with
  | nil => rfl
  | cons group rest ih =>
    by_cases none : group = 0
    · have place : last + ((rest.length + 1 : Nat) : Int) - 1 = last + rest.length := by omega
      subst none
      rw [List.dropWhile_cons_of_pos (by simp), ih, magnitude, List.length_cons, place]
      simp
    · rw [List.dropWhile_cons_of_neg (by simp [none])]

theorem lengthGroupsOf (count n : Nat) : (groupsOf count n).length = count := by
  induction count generalizing n with
  | zero => rfl
  | succ count ih => simp [groupsOf, ih]

theorem groupsOfSmall (count n : Nat) : ∀ group ∈ groupsOf count n, group < 10000 := by
  induction count generalizing n with
  | zero => exact fun _ member => nomatch member
  | succ count ih =>
    intro group member
    rcases List.mem_append.mp member with before | last
    · exact ih _ group before
    · rw [List.mem_singleton.mp last]
      exact Nat.mod_lt n (by decide)

theorem magnitudeGroupsOf (last : Int) (count n : Nat) :
    magnitude (last + count - 1) (groupsOf count n) = (n % 10000 ^ count : Nat) * 10000 ^ last := by
  induction count generalizing last n with
  | zero => simp [groupsOf, magnitude, Nat.mod_one]
  | succ count ih =>
    have first : last + ((count + 1 : Nat) : Int) - 1 = (last + 1) + count - 1 := by omega
    have place : (last + 1) + count - 1 - ((groupsOf count (n / 10000)).length : Int) = last := by
      rw [lengthGroupsOf]
      omega
    rw [groupsOf, magnitudeSnoc, first, ih, place, Nat.pow_succ', Nat.mod_mul, zpow_add_one₀ (by norm_num)]
    push_cast
    ring

theorem magnitudeLastZeros (weight : Int) (front groups : List Nat) :
    magnitude weight (front ++ (groups.reverse.dropWhile (· = 0)).reverse) = magnitude weight (front ++ groups) := by
  have parts : groups = (groups.reverse.dropWhile (· = 0)).reverse ++ (groups.reverse.takeWhile (· = 0)).reverse := by
    rw [← List.reverse_append, List.takeWhile_append_dropWhile, List.reverse_reverse]
  have zeros : ∀ group ∈ (groups.reverse.takeWhile (· = 0)).reverse, group = 0 := fun group member => by
    simpa using List.mem_takeWhile_imp (List.mem_reverse.mp member)
  conv_rhs => rw [parts, ← List.append_assoc]
  exact (magnitudeZerosBehind zeros weight _).symm

def spelled (d : Decimal) : List Nat :=
  (groupsOf 9 (d.mantissa * 10 ^ (4 * ((d.scale + 3) / 4) - d.scale))).dropWhile (· = 0)

def kept (whole : Nat) (groups : List Nat) : List Nat :=
  if whole = 0 then groups else groups.take whole ++ ((groups.drop whole).reverse.dropWhile (· = 0)).reverse

theorem ofDecimalNonzero {d : Decimal} (some : d.mantissa ≠ 0) :
    ofDecimal d = ⟨kept ((spelled d).length - (d.scale + 3) / 4) (spelled d),
      (spelled d).length - ((d.scale + 3) / 4 : Nat) - 1, d.negative, d.scale⟩ := by
  rw [ofDecimal, if_neg some]
  rfl

theorem keptSublist (whole : Nat) (groups : List Nat) : (kept whole groups).Sublist groups := by
  rw [kept]
  split
  · exact .refl groups
  · have parts := List.take_append_drop whole groups
    have behind : ((groups.drop whole).reverse.dropWhile (· = 0)).reverse.Sublist (groups.drop whole) := by
      simpa using (List.dropWhile_sublist (· = 0) (l := (groups.drop whole).reverse)).reverse
    exact (parts ▸ (List.Sublist.refl _).append behind :)

theorem magnitudeKept (weight : Int) (whole : Nat) (groups : List Nat) :
    magnitude weight (kept whole groups) = magnitude weight groups := by
  rw [kept]
  split
  · rfl
  · rw [magnitudeLastZeros, List.take_append_drop]

theorem spelledShort (d : Decimal) : (spelled d).length ≤ 9 :=
  Nat.le_trans (List.dropWhile_suffix _).length_le (Nat.le_of_eq (lengthGroupsOf 9 _))

theorem spelledSmall (d : Decimal) : ∀ group ∈ spelled d, group < 10000 := fun group member =>
  groupsOfSmall 9 _ group ((List.dropWhile_suffix _).subset member)

theorem spelledMagnitude (d : Decimal) :
    magnitude ((spelled d).length - ((d.scale + 3) / 4 : Nat) - 1) (spelled d) = d.mantissa / 10 ^ d.scale := by
  have room := d.mantissaBound
  generalize filling : 4 * ((d.scale + 3) / 4) - d.scale = filled
  have few : 10 ^ filled ≤ 10 ^ 3 := Nat.pow_le_pow_right (by decide) (by omega)
  have fits : d.mantissa * 10 ^ filled < 10000 ^ 9 :=
    Nat.lt_of_le_of_lt (Nat.mul_le_mul (Nat.le_of_lt room) few) (by decide)
  have places : 4 * ((d.scale + 3) / 4) = d.scale + filled := by omega
  rw [spelled, filling] at *
  generalize (d.scale + 3) / 4 = fractional at *
  generalize written : groupsOf 9 (d.mantissa * 10 ^ filled) = groups
  have length : groups.length = 9 := written ▸ lengthGroupsOf 9 _
  calc magnitude ((groups.dropWhile (· = 0)).length - (fractional : Int) - 1) (groups.dropWhile (· = 0))
      = magnitude (-fractional - 1 + (groups.dropWhile (· = 0)).length) (groups.dropWhile (· = 0)) :=
        congrArg (magnitude · _) (by omega)
    _ = magnitude (-fractional + (9 : Nat) - 1) groups := by
        rw [magnitudeZerosBefore, length]
        exact congrArg (magnitude · _) (by omega)
    _ = (d.mantissa * 10 ^ filled : Nat) * 10000 ^ (-fractional : Int) := by
        rw [← written, magnitudeGroupsOf, Nat.mod_eq_of_lt fits]
    _ = d.mantissa / 10 ^ d.scale := by
        have tens : (10000 : ℚ) ^ fractional = 10 ^ d.scale * 10 ^ filled := by
          rw [← pow_add, ← places, pow_mul]
          norm_num
        rw [zpow_neg, zpow_natCast, tens]
        push_cast
        field_simp

theorem ofDecimalValue (d : Decimal) : (ofDecimal d).value = d.value := by
  by_cases none : d.mantissa = 0
  · simp [ofDecimal, none, value, magnitude, Decimal.value]
  · rw [ofDecimalNonzero none, value, Decimal.value, magnitudeKept, spelledMagnitude]
    ring

theorem ofDecimalScale (d : Decimal) : (ofDecimal d).scale ≤ d.scale := by
  by_cases none : d.mantissa = 0
  · rw [ofDecimal, if_pos none]
    exact Nat.zero_le d.scale
  · rw [ofDecimalNonzero none]

theorem ofDecimalFits (d : Decimal) : (ofDecimal d).Fits := by
  have places := d.scaleBound
  have short := spelledShort d
  by_cases none : d.mantissa = 0
  · rw [ofDecimal, if_pos none]
    exact ⟨by decide, nofun, by decide, by decide, by decide⟩
  · have groups := keptSublist ((spelled d).length - (d.scale + 3) / 4) (spelled d)
    have fewer := groups.length_le
    rw [ofDecimalNonzero none]
    refine ⟨?_, fun group member => spelledSmall d group (groups.subset member), ?_, ?_, ?_⟩
    all_goals
      dsimp only
      omega

end Numeric
end TableGateway
