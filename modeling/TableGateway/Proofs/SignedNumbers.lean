import TableGateway.Binding
import TableGateway.Proofs.DecimalValue

/-! Whole numbers of a payload on their way to a parameter. One that fits in 64 signed bits is kept as it is by
every type that stands for numbers exactly. -/
namespace TableGateway

theorem Json.ofIntWhole (n : WholeNumber) : Json.ofInt n.value = .whole n := by
  rw [Json.ofInt, dif_pos ⟨n.low, n.high⟩]

theorem Json.ofFloatNotWhole (x : Binary64) (n : WholeNumber) : Json.ofFloat x ≠ .whole n := by
  rw [Json.ofFloat]
  split <;> nofun

namespace Value

theorem ofJsonSigned {n : WholeNumber} (signed : n.value < 2 ^ 63) :
    ofJson (.whole n) = .int (Int64.ofInt n.value) := if_pos signed

theorem toIntSigned {n : WholeNumber} (signed : n.value < 2 ^ 63) : (Int64.ofInt n.value).toInt = n.value :=
  Int64.toInt_ofInt_of_le n.low signed

theorem toJsonOfJson (n : WholeNumber) : (ofJson (.whole n)).toJson = .whole n ↔ n.value < 2 ^ 63 := by
  refine ⟨fun kept => ?_, fun signed => ?_⟩
  · by_contra unsigned
    rw [ofJson, if_neg unsigned] at kept
    exact Json.ofFloatNotWhole _ n kept
  · rw [ofJsonSigned signed, toJson, toIntSigned signed, Json.ofIntWhole]

end Value

namespace Integral

theorem checked {range : Range} {n m : Int} (ok : range.check n = .ok m) :
    m = n ∧ range.low ≤ n ∧ n ≤ range.high := by
  unfold Range.check at ok
  split at ok
  · cases ok
  · split at ok
    · cases ok
    · cases ok
      exact ⟨rfl, by omega, by omega⟩

end Integral

namespace Decimal

theorem ofIntWhole (n : WholeNumber) : ∃ d, ofInt? n.value = some d := by
  have small : n.value.natAbs < 2 ^ 96 := by
    have := n.low
    have := n.high
    omega
  exact ⟨_, dif_pos ⟨small, Nat.zero_le 28⟩⟩

theorem ofIntValue {n : Int} {d : Decimal} (made : ofInt? n = some d) : d.value = n ∧ d.scale = 0 := by
  unfold ofInt? make? at made
  split at made
  · cases made
    refine ⟨?_, rfl⟩
    rw [value]
    by_cases below : n < 0
    · have size : ((n.natAbs : Nat) : ℚ) = -n := by
        rw [Nat.cast_natAbs, abs_of_neg below, Int.cast_neg]
      simp [below, size]
    · have size : ((n.natAbs : Nat) : ℚ) = n := by
        rw [Nat.cast_natAbs, abs_of_nonneg (by omega)]
      simp [below, size]
  · cases made

end Decimal

namespace Binding

def Tells (n : Int) : Scalar → Bytes → Prop
  | .int2, bs => Bytes.exactInt? 2 bs = some n
  | .int4, bs => Bytes.exactInt? 4 bs = some n
  | .int8, bs => Bytes.exactInt? 8 bs = some n
  | .oid, bs => (Bytes.exactNat? 4 bs).map Int.ofNat = some n
  | .numeric, bs => ∃ wire, Numeric.ofBytes? bs = some wire ∧ wire.value = n ∧ wire.scale = 0
  | .jsonb, bs => bs = 1 :: Bytes.ofText (Text.ofInt n)
  | _, bs => bs = Bytes.ofText (Text.ofInt n)

theorem decimalTells {n : Int} {d : Decimal} (made : Decimal.ofInt? n = some d) :
    Tells n .numeric (decimalBytes d) := by
  obtain ⟨number, placeless⟩ := Decimal.ofIntValue made
  refine ⟨Numeric.ofDecimal d, Numeric.ofBytesToBytes (Numeric.ofDecimalFits d), ?_, ?_⟩
  · rw [Numeric.ofDecimalValue, number]
  · exact Nat.eq_zero_of_le_zero (placeless ▸ Numeric.ofDecimalScale d)

theorem integralTells {n m : Int} {s : Scalar} {width : Nat} {range : Integral.Range}
    (integral : integral? s = some (width, range)) (ok : range.check n = .ok m) :
    Tells n s (Bytes.ofInt width m) := by
  obtain ⟨rfl, low, high⟩ := Integral.checked ok
  cases s with
  | int2 | int4 | int8 =>
    cases integral
    simp only [Integral.Range.signed] at low high
    exact Bytes.exactIntOfInt (by omega) (by omega)
  | oid =>
    cases integral
    simp only [Integral.Range.unsigned] at low high
    rw [Tells, Bytes.exactNatOfInt low (by omega), Option.map_some]
    exact congrArg some (Int.toNat_of_nonneg low)
  | _ => cases integral

theorem ofIntTells {n : WholeNumber} {s : Scalar} (exact : s ≠ .float4 ∧ s ≠ .float8) {sent : Option Bytes}
    (ok : ofInt n.value s = .ok sent) : ∃ bs, sent = some bs ∧ Tells n.value s bs := by
  cases integral : integral? s with
  | some form =>
    obtain ⟨width, range⟩ := form
    simp only [ofInt, integral] at ok
    cases checked : range.check n.value with
    | ok m =>
      rw [checked] at ok
      cases ok
      exact ⟨_, rfl, integralTells integral checked⟩
    | error fault =>
      rw [checked] at ok
      cases ok
  | none =>
    cases s with
    | float4 => exact absurd rfl exact.1
    | float8 => exact absurd rfl exact.2
    | int2 | int4 | int8 | oid => cases integral
    | numeric =>
      obtain ⟨d, made⟩ := Decimal.ofIntWhole n
      simp only [ofInt, integral, made, sendOr] at ok
      cases ok
      exact ⟨_, rfl, decimalTells made⟩
    | json | jsonb =>
      simp only [ofInt, integral, Json.ofIntWhole] at ok
      cases ok
      exact ⟨_, rfl, rfl⟩
    | text | varchar | bpchar | name | unknown =>
      cases ok
      exact ⟨_, rfl, rfl⟩
    | _ => cases ok

theorem bindSigned {n : WholeNumber} (signed : n.value < 2 ^ 63) (s : Scalar) :
    bind (Value.ofJson (.whole n)) (.scalar s) = ofInt n.value s := by
  rw [Value.ofJsonSigned signed, bind, scalar, Value.toIntSigned signed]

theorem ofIntSends (n : WholeNumber) {s : Scalar} (takes : s = .numeric ∨ DataType.isText s) :
    ∃ sent, ofInt n.value s = .ok sent := by
  cases s with
  | numeric =>
    obtain ⟨d, made⟩ := Decimal.ofIntWhole n
    exact ⟨_, by simp only [ofInt, integral?, made, sendOr]; rfl⟩
  | text | varchar | bpchar | name | unknown => exact ⟨_, rfl⟩
  | _ => simp [DataType.isText] at takes

theorem signedNumbersKept (n : WholeNumber) (signed : n.value < 2 ^ 63) :
    (Value.ofJson (.whole n)).toJson = .whole n ∧
    (∀ s, s = .numeric ∨ DataType.isText s →
      ∃ bs, bind (Value.ofJson (.whole n)) (.scalar s) = .ok (some bs) ∧ Tells n.value s bs) ∧
    ∀ s sent, s ≠ .float4 ∧ s ≠ .float8 → bind (Value.ofJson (.whole n)) (.scalar s) = .ok sent →
      ∃ bs, sent = some bs ∧ Tells n.value s bs := by
  refine ⟨(Value.toJsonOfJson n).mpr signed, fun s takes => ?_, fun s sent exact ok => ?_⟩
  · obtain ⟨sent, ok⟩ := ofIntSends n takes
    have exact : s ≠ .float4 ∧ s ≠ .float8 := by
      constructor <;>
      · rintro rfl
        simp [DataType.isText] at takes
    obtain ⟨bs, rfl, tells⟩ := ofIntTells exact ok
    exact ⟨bs, (bindSigned signed s).trans ok, tells⟩
  · exact ofIntTells exact (bindSigned signed s ▸ ok)

theorem greatestSignedKept :
    let n : WholeNumber := ⟨2 ^ 63 - 1, by decide, by decide⟩
    n.value < 2 ^ 63 ∧ (Value.ofJson (.whole n)).toJson = .whole n ∧
      (∃ bs, bind (Value.ofJson (.whole n)) (.scalar .numeric) = .ok (some bs) ∧ Tells n.value .numeric bs) ∧
      bind (Value.ofJson (.whole n)) (.scalar .text) = .ok (some (Bytes.ofText "9223372036854775807")) := by
  intro n
  have signed : n.value < 2 ^ 63 := by decide
  obtain ⟨rendered, sent, -⟩ := signedNumbersKept n signed
  obtain ⟨bs, bound, rfl⟩ := sent .text (.inr rfl)
  exact ⟨signed, rendered, sent .numeric (.inl rfl), bound⟩

theorem unsignedNumbersRounded :
    let n : WholeNumber := ⟨2 ^ 63 + 1, by decide, by decide⟩
    (Value.ofJson (.whole n)).toJson ≠ .whole n ∧
      bind (Value.ofJson (.whole n)) (.scalar .text) = .ok (some (Bytes.ofText "9223372036854776000")) ∧
      bind (Value.ofJson (.whole n)) (.scalar .numeric) =
        .ok (some (Numeric.toBytes ⟨[922, 3372, 368, 5477, 5808], 4, false, 0⟩)) := by
  decide +kernel

end Binding
end TableGateway
