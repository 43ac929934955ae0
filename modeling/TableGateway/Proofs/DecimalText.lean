import TableGateway.Decimal.Reader
import TableGateway.Proofs.DecimalValue
import TableGateway.Proofs.WrittenDates

/-! The text of a decimal. It denotes the number that the decimal stands for, and it is read as the decimal that was
printed, place for place; only the sign of a zero is lost. -/
namespace TableGateway

namespace Text

theorem toNatAppend (front back : Text) : toNat (front ++ back) = toNat front * 10 ^ back.length + toNat back := by
  rw [toNat, Nat.ofDigitChars_append, Nat.ofDigitChars_eq_ofDigitChars_zero, Nat.mul_comm]
  rfl

end Text

namespace Decimal

def magnitude? (t : Text) : Option ℚ :=
  match Text.spanDigits t with
  | (c :: digits, []) => some (Text.toNat (c :: digits))
  | (c :: digits, '.' :: places) =>
    if places.isEmpty ∨ ¬places.all Char.isDigit then none
    else some (Text.toNat (c :: digits) + Text.toNat places / 10 ^ places.length)
  | _ => none

def number? : Text → Option ℚ
  | '-' :: t => (magnitude? t).map fun q => -q
  | t => magnitude? t

def whole (d : Decimal) : Text := (Text.padded (d.scale + 1) d.mantissa).take
  ((Text.padded (d.scale + 1) d.mantissa).length - d.scale)

def places (d : Decimal) : Text := (Text.padded (d.scale + 1) d.mantissa).drop
  ((Text.padded (d.scale + 1) d.mantissa).length - d.scale)

def unsignedText (d : Decimal) : Text := d.whole ++ if d.scale = 0 then [] else '.' :: d.places

theorem printParts (d : Decimal) : d.print = (if d.negative then ['-'] else []) ++ d.unsignedText := by
  rw [unsignedText, ← List.append_assoc]
  rfl

theorem paddedLong (d : Decimal) : d.scale < (Text.padded (d.scale + 1) d.mantissa).length := by
  have some : 0 < (Text.ofNat d.mantissa).length := List.length_pos_of_ne_nil (Text.ofNatNotEmpty _)
  simp only [Text.padded, List.length_append, List.length_replicate]
  omega

theorem partsJoined (d : Decimal) : d.whole ++ d.places = Text.padded (d.scale + 1) d.mantissa :=
  List.take_append_drop _ _

theorem wholeDigits (d : Decimal) : ∀ c ∈ d.whole, c.isDigit := fun _ member =>
  Text.paddedDigits (List.mem_of_mem_take member)

theorem placesDigits (d : Decimal) : ∀ c ∈ d.places, c.isDigit := fun _ member =>
  Text.paddedDigits (List.mem_of_mem_drop member)

theorem wholeFilled (d : Decimal) : d.whole ≠ [] := by
  have long := d.paddedLong
  refine List.ne_nil_of_length_pos ?_
  rw [whole, List.length_take]
  omega

theorem placesLength (d : Decimal) : d.places.length = d.scale := by
  have long := d.paddedLong
  rw [places, List.length_drop]
  omega

theorem partsValue (d : Decimal) : Text.toNat d.whole * 10 ^ d.scale + Text.toNat d.places = d.mantissa := by
  rw [← placesLength, ← Text.toNatAppend, partsJoined, Text.toNatPadded]

theorem magnitudePrinted (d : Decimal) : magnitude? d.unsignedText = some (d.mantissa / 10 ^ d.scale : ℚ) := by
  have digits := d.wholeDigits
  have value := d.partsValue
  obtain ⟨c, front, filled⟩ := List.exists_cons_of_ne_nil d.wholeFilled
  rw [unsignedText]
  by_cases none : d.scale = 0
  · have placeless : d.places = [] := List.length_eq_zero_iff.mp (none ▸ d.placesLength)
    have span : Text.spanDigits (d.whole ++ []) = (d.whole, []) := Placeholder.spanDigitsAppend digits (by simp)
    rw [if_pos none, magnitude?, span, filled]
    rw [placeless, none, filled] at value
    simp only [none, ← value]
    simp [Text.toNat]
  · have span : Text.spanDigits (d.whole ++ '.' :: d.places) = (d.whole, '.' :: d.places) :=
      Placeholder.spanDigitsAppend digits (by simp)
    have proper : ¬(d.places.isEmpty ∨ ¬d.places.all Char.isDigit) := by
      have filled : d.places ≠ [] := List.ne_nil_of_length_pos (by rw [placesLength]; omega)
      have all : d.places.all Char.isDigit := List.all_eq_true.mpr d.placesDigits
      simp [filled, all]
    have sum : (Text.toNat d.whole + Text.toNat d.places / 10 ^ d.scale : ℚ) = d.mantissa / 10 ^ d.scale := by
      rw [← value]
      push_cast
      field_simp
    rw [if_neg none, magnitude?, span, filled]
    simp only [if_neg proper]
    rw [← filled, placesLength, sum]

theorem unsignedHead (d : Decimal) : ∃ c t, d.unsignedText = c :: t ∧ c.isDigit := by
  obtain ⟨c, front, filled⟩ := List.exists_cons_of_ne_nil d.wholeFilled
  exact ⟨c, front ++ if d.scale = 0 then [] else '.' :: d.places, by rw [unsignedText, filled]; rfl,
    d.wholeDigits c (filled ▸ List.mem_cons_self)⟩

theorem numberPrinted (d : Decimal) : number? d.print = some d.value := by
  have printed := d.magnitudePrinted
  rw [printParts, value]
  cases d.negative with
  | true => simp [number?, printed, neg_div]
  | false =>
    obtain ⟨c, t, text, digit⟩ := d.unsignedHead
    have unsigned : c ≠ '-' := by
      rintro rfl
      contradiction
    rw [text] at printed
    simp [text, number?, unsigned, printed]

theorem printSolid (d : Decimal) : ∀ c ∈ d.print, ¬isBlank c ∧ c ≠ 'e' ∧ c ≠ 'E' := by
  have digit {c : Char} (digit : c.isDigit) : ¬isBlank c ∧ c ≠ 'e' ∧ c ≠ 'E' := by
    refine ⟨Text.digitSolid digit, ?_, ?_⟩ <;>
    · rintro rfl
      contradiction
  intro c member
  rw [printParts, unsignedText] at member
  rcases List.mem_append.mp member with sign | member
  · split at sign
    · rw [List.mem_singleton.mp sign]
      decide
    · cases sign
  rcases List.mem_append.mp member with whole | member
  · exact digit (d.wholeDigits c whole)
  · split at member
    · cases member
    · rcases List.mem_cons.mp member with rfl | place
      · decide
      · exact digit (d.placesDigits c place)

namespace Reader

theorem digitsTaken {digits : Text} (all : ∀ c ∈ digits, c.isDigit) {p : Progress}
    (room : Nat.ofDigitChars 10 digits p.mantissa < 2 ^ 96) (place : p.point → p.scale + digits.length ≤ 28)
    (start : ¬p.point → p.scale = 0) (rest : Text) :
    digits? p (digits ++ rest) = digits? ⟨Nat.ofDigitChars 10 digits p.mantissa,
      if p.point then p.scale + digits.length else 0, p.digits || !digits.isEmpty, p.point⟩ rest := by
  induction digits generalizing p with
  | nil =>
    obtain ⟨mantissa, scale, read, point⟩ := p
    cases point with
    | true => simp
    | false =>
      obtain rfl := start Bool.false_ne_true
      simp
  | cons c digits ih =>
    obtain ⟨digit, others⟩ := List.forall_mem_cons.mp all
    have next : Nat.ofDigitChars 10 (c :: digits) p.mantissa =
        Nat.ofDigitChars 10 digits (10 * p.mantissa + Text.digitValue c) := Nat.ofDigitChars_cons
    rw [next] at room
    have grows := Text.ofDigitCharsGrows digits (10 * p.mantissa + Text.digitValue c)
    have open' : ¬(p.point ∧ 28 ≤ p.scale) := fun ⟨point, full⟩ => by
      have := place point
      simp only [List.length_cons] at this
      omega
    rw [List.cons_append, digits?, if_neg open', if_pos digit, if_pos (Nat.lt_of_le_of_lt grows room), next]
    rw [ih others room]
    · cases p.point <;> simp [Nat.add_assoc, Nat.add_comm 1]
    · intro point
      have := place point
      simp only [List.length_cons] at this
      rw [if_pos point]
      dsimp only
      omega
    · exact fun point => if_neg point

theorem digitsPrinted (d : Decimal) : digits? {} d.unsignedText = some (d.mantissa, d.scale) := by
  have bound := d.mantissaBound
  have value := d.partsValue
  have some : 0 < 10 ^ d.scale := Nat.pow_pos (by decide)
  have front : Nat.ofDigitChars 10 d.whole 0 < 2 ^ 96 := by
    change Text.toNat d.whole < 2 ^ 96
    nlinarith
  have filled : d.whole.isEmpty = false := by simp [d.wholeFilled]
  have taken := digitsTaken d.wholeDigits (p := {}) front nofun fun _ => rfl
  simp only [Bool.false_eq_true, if_false, filled, Bool.not_false, Bool.false_or] at taken
  rw [unsignedText]
  by_cases none : d.scale = 0
  · have placeless : d.places = [] := List.length_eq_zero_iff.mp (d.placesLength.trans none)
    rw [none, placeless, Nat.pow_zero, Nat.mul_one] at value
    rw [if_pos none, taken, digits?, if_pos rfl, none]
    exact congrArg (fun m => Option.some (m, 0)) value
  · have joined : Nat.ofDigitChars 10 d.places (Nat.ofDigitChars 10 d.whole 0) = d.mantissa := by
      rw [← Nat.ofDigitChars_append, partsJoined]
      exact Text.toNatPadded _ _
    have places := digitsTaken d.placesDigits (p := ⟨Nat.ofDigitChars 10 d.whole 0, 0, true, true⟩) (joined ▸ bound)
      (fun _ => by rw [placesLength, Nat.zero_add]; exact d.scaleBound) nofun []
    rw [List.append_nil, joined, placesLength] at places
    rw [if_neg none, taken]
    simpa [digits?] using places

end Reader

def settled (d : Decimal) : Decimal := { d with negative := d.negative && d.mantissa != 0 }

theorem readPrint (d : Decimal) : read? d.print = some d.settled := by
  have plain : ¬d.print.any fun c => c = 'e' || c = 'E' := by
    simpa using fun c member => (d.printSolid c member).2
  have made : make? (d.negative && d.mantissa != 0) d.mantissa d.scale = some d.settled :=
    dif_pos ⟨d.mantissaBound, d.scaleBound⟩
  have digits := Reader.digitsPrinted d
  rw [read?, if_neg plain, printParts]
  cases negative : d.negative with
  | true =>
    rw [negative] at made
    simpa [Reader.plain?, digits] using made
  | false =>
    obtain ⟨c, t, text, digit⟩ := d.unsignedHead
    have signless : c ≠ '-' ∧ c ≠ '+' := by
      constructor <;>
      · rintro rfl
        contradiction
    rw [negative] at made
    rw [text] at digits
    simpa [text, Reader.plain?, signless, digits] using made

end Decimal
end TableGateway
