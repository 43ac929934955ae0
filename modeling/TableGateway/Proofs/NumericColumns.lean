import TableGateway.Binding
import TableGateway.Proofs.ArrayColumns
import TableGateway.Proofs.DecimalText
import TableGateway.Proofs.HeldNumbers
import TableGateway.Value.Sources

/-! Decimals in a column. One that 96 bits, 28 places and the places that it shows can hold is decoded as the number
that it is; any other is refused or rounded. A decimal that was bound comes back as it is printed, unless it is zero:
zero is sent without places. -/
namespace TableGateway

namespace Numeric

def Held (n : Numeric) : Prop := ∃ d : Decimal, d.value = n.value ∧ d.scale ≤ n.scale

theorem signedSize (negative : Bool) {q : ℚ} (nonneg : 0 ≤ q) : |(if negative then -1 else 1) * q| = q := by
  cases negative <;> simp [abs_of_nonneg nonneg]

theorem valueSize (n : Numeric) : |n.value| = magnitude n.weight n.groups := signedSize _ (magnitudeNonneg ..)

theorem decimalSize (d : Decimal) : |d.value| * 10 ^ d.scale = d.mantissa := by
  rw [Decimal.value, mul_div_assoc, signedSize _ (by positivity)]
  field_simp

theorem heldDecoded {n : Numeric} (small : ∀ group ∈ n.groups, group < 10000) (held : n.Held)
    (near : n.value ≠ 0 ∨ n.weight < n.groups.length + 7) : ∃ d, n.toDecimal? = some d ∧ d.value = n.value := by
  obtain ⟨d, same, shown⟩ := held
  have size : magnitude n.weight n.groups * 10 ^ d.scale = d.mantissa := by
    rw [← valueSize, ← same, decimalSize]
  have some : n.value ≠ 0 → d.mantissa ≠ 0 := by
    intro digit none
    rw [none, Nat.cast_zero, ← valueSize] at size
    exact digit (abs_eq_zero.mp ((mul_eq_zero.mp size).resolve_right (by positivity)))
  obtain ⟨e, decoded, sign, amount, -⟩ :=
    toDecimalExact small d.mantissaBound d.scaleBound shown size (near.imp_left some)
  refine ⟨e, decoded, ?_⟩
  rw [Decimal.value, value, sign, mul_div_assoc, ← amount, Decimal.amount]

theorem ofDecimalSettled (d : Decimal) : ofDecimal d.settled = ofDecimal d := by
  by_cases none : d.mantissa = 0
  · simp [ofDecimal, Decimal.settled, none]
  · have same : d.settled = d := by
      obtain ⟨_, _, _, _, _⟩ := d
      simpa [Decimal.settled] using fun _ => none
    rw [same]

theorem toDecimalOfDecimal {d : Decimal} (some : d.mantissa ≠ 0) : (ofDecimal d).toDecimal? = Option.some d := by
  have size : magnitude (ofDecimal d).weight (ofDecimal d).groups * 10 ^ d.scale = d.mantissa := by
    rw [← valueSize, ofDecimalValue, decimalSize]
  have shown : (ofDecimal d).scale = d.scale := by rw [ofDecimalNonzero some]
  have signed : (ofDecimal d).negative = d.negative := by rw [ofDecimalNonzero some]
  obtain ⟨e, decoded, sign, amount, scale⟩ := toDecimalExact (ofDecimalFits d).groups d.mantissaBound d.scaleBound
    (Nat.le_of_eq shown.symm) size (.inl some)
  have places : e.scale = d.scale := scale shown
  have mantissa : e.mantissa = d.mantissa := by
    have whole := Decimal.amountScaled (e.mantissa, e.scale) le_rfl
    rw [amount, places, size] at whole
    simpa using (Nat.cast_injective whole).symm
  obtain ⟨_, _, _, _, _⟩ := d
  obtain ⟨_, _, _, _, _⟩ := e
  simp_all

end Numeric

namespace Row

theorem numericDecoded {n : Numeric} (fits : n.Fits) (index : Nat) (t : Text) :
    column index (.scalar .numeric) (some n.toBytes) = .ok (.string t) ↔ ∃ d, n.toDecimal? = some d ∧ d.print = t := by
  rw [columnFound rfl, scalar?, Numeric.ofBytesToBytes fits, Option.bind_some, stringOf, Option.map_eq_some_iff]
  exact ⟨fun ⟨d, found, same⟩ => ⟨d, found, Json.string.inj same⟩, fun ⟨d, found, same⟩ => ⟨d, found, same ▸ rfl⟩⟩

/-- A decimal column is read as text or refused. The text denotes the number on the wire if that is held, and only
then; a held number is refused only for a zero that is far from the point. -/
theorem numericsDecoded {n : Numeric} (fits : n.Fits) (index : Nat) :
    (column index (.scalar .numeric) (some n.toBytes) = .error (.unreadable index) ∨
      ∃ t, column index (.scalar .numeric) (some n.toBytes) = .ok (.string t)) ∧
    (∀ t, column index (.scalar .numeric) (some n.toBytes) = .ok (.string t) →
      (Decimal.number? t = some n.value ↔ n.Held)) ∧
    (n.Held → n.value ≠ 0 ∨ n.weight < n.groups.length + 7 →
      ∃ t, column index (.scalar .numeric) (some n.toBytes) = .ok (.string t) ∧ Decimal.number? t = some n.value) := by
  refine ⟨?_, fun t read => ?_, fun held near => ?_⟩
  · cases decoded : n.toDecimal? with
    | none =>
      left
      simp [column, reader?, scalar?, Numeric.ofBytesToBytes fits, decoded, stringOf]
    | some d => exact .inr ⟨d.print, (numericDecoded fits index _).mpr ⟨d, decoded, rfl⟩⟩
  · obtain ⟨d, decoded, rfl⟩ := (numericDecoded fits index t).mp read
    obtain ⟨shown, near⟩ := Numeric.toDecimalBounds decoded
    rw [Decimal.numberPrinted]
    refine ⟨fun same => ⟨d, Option.some.inj same, shown⟩, fun held => ?_⟩
    obtain ⟨e, again, same⟩ := Numeric.heldDecoded fits.groups held (.inr near)
    obtain rfl : d = e := Option.some.inj (decoded.symm.trans again)
    rw [same]
  · obtain ⟨d, decoded, same⟩ := Numeric.heldDecoded fits.groups held near
    exact ⟨d.print, (numericDecoded fits index _).mpr ⟨d, decoded, rfl⟩, by rw [Decimal.numberPrinted, same]⟩

theorem greatestPlacesDecoded :
    let n : Numeric := ⟨[7, 9228, 1625, 1426, 4337, 5935, 4395, 335], 0, false, 28⟩
    let text : Text := "7.9228162514264337593543950335"
    n.Fits ∧ n.Held ∧ column 0 (.scalar .numeric) (some n.toBytes) = .ok (.string text) ∧
      Decimal.number? text = some n.value := by
  intro n text
  have fits : n.Fits := ⟨by decide, by decide, by decide, by decide, by decide⟩
  have held : n.Held := by
    refine ⟨⟨false, 2 ^ 96 - 1, 28, by decide, by decide⟩, ?_, by decide⟩
    norm_num [n, Decimal.value, Numeric.value, Numeric.magnitude]
  have printed : column 0 (.scalar .numeric) (some n.toBytes) = .ok (.string text) := by decide +kernel
  exact ⟨fits, held, printed, ((numericsDecoded fits 0).2.1 text printed).mpr held⟩

theorem longNumbersRounded :
    let small : Numeric := ⟨[1000], -8, false, 29⟩
    let long : Numeric := ⟨[1234, 5678, 9012, 3456, 7890, 1234, 5678, 9100], 4, false, 10⟩
    let zero : Text := "0.0000000000000000000000000000"
    let shortened : Text := "12345678901234567890.123456789"
    small.Fits ∧ small.value = 1 / 10 ^ 29 ∧
      column 0 (.scalar .numeric) (some small.toBytes) = .ok (.string zero) ∧ Decimal.number? zero = some 0 ∧
      long.Fits ∧ long.value = 123456789012345678901234567891 / 10 ^ 10 ∧
      column 0 (.scalar .numeric) (some long.toBytes) = .ok (.string shortened) ∧
      Decimal.number? shortened = some (12345678901234567890123456789 / 10 ^ 9) := by
  intro small long zero shortened
  refine ⟨⟨by decide, by decide, by decide, by decide, by decide⟩, ?_, by decide +kernel, ?_,
    ⟨by decide, by decide, by decide, by decide, by decide⟩, ?_, by decide +kernel, ?_⟩
  · norm_num [small, Numeric.value, Numeric.magnitude]
  · have printed : (Decimal.mk false 0 28 (by decide) (by decide)).print = zero := by decide +kernel
    rw [← printed, Decimal.numberPrinted]
    norm_num [Decimal.value]
  · norm_num [long, Numeric.value, Numeric.magnitude]
  · have printed : (Decimal.mk false 12345678901234567890123456789 9 (by decide) (by decide)).print = shortened := by
      decide +kernel
    rw [← printed, Decimal.numberPrinted]
    norm_num [Decimal.value]

end Row

namespace Binding

theorem bindDecimal (d : Decimal) :
    bind (Value.ofDecimal d) (.scalar .numeric) = .ok (some (Numeric.ofDecimal d).toBytes) := by
  have solid : ∀ c ∈ d.print, ¬isBlank c := fun c member => (d.printSolid c member).1
  rw [Value.ofDecimal, bind, scalar, ofText, Text.trimSolid solid, Decimal.readPrint, sendOr, sent, decimalBytes,
    Numeric.ofDecimalSettled]

theorem decimalsReturn (d : Decimal) : ∃ bs, bind (Value.ofDecimal d) (.scalar .numeric) = .ok (some bs) ∧
    ∀ index, Row.column index (.scalar .numeric) (some bs) =
      .ok (.string (if d.mantissa = 0 then "0" else d.print)) := by
  refine ⟨_, bindDecimal d, fun index => (Row.numericDecoded (Numeric.ofDecimalFits d) index _).mpr ?_⟩
  by_cases none : d.mantissa = 0
  · rw [Numeric.ofDecimal, if_pos none, if_pos none]
    exact ⟨⟨false, 0, 0, by decide, by decide⟩, by decide +kernel, by decide +kernel⟩
  · rw [if_neg none]
    exact ⟨d, Numeric.toDecimalOfDecimal none, rfl⟩

theorem zeroLosesPlaces :
    let d : Decimal := ⟨false, 0, 2, by decide, by decide⟩
    let bs : Bytes := List.replicate 8 0
    d.print = "0.00" ∧ bind (Value.ofDecimal d) (.scalar .numeric) = .ok (some bs) ∧
      Row.column 0 (.scalar .numeric) (some bs) = .ok (.string "0") := by
  intro d bs
  exact ⟨by decide +kernel, by decide +kernel, by decide +kernel⟩

end Binding
end TableGateway
