import TableGateway.Proofs.ArrayColumns
import TableGateway.Proofs.WrittenDates

/-! Times of day in a column. What is printed is the time that was sent, to the microsecond, and no two times of one
day are printed alike. A day ends with a time of its own, 24:00:00, which a clock does not show: it is printed as the
beginning of a day. -/
namespace TableGateway
namespace Clock

structure TwoDigits (t : Text) (n : Nat) : Prop where
  length : t.length = 2
  all : ∀ c ∈ t, c.isDigit
  value : Text.toNat t = n

inductive Fraction : Text → Nat → Prop
  | none : Fraction [] 0
  | places {places : Text} (filled : places ≠ []) (few : places.length ≤ 6) (all : ∀ c ∈ places, c.isDigit) :
      Fraction ('.' :: places) (Text.toNat places * 10 ^ (6 - places.length))

inductive Means : Text → Nat → Prop
  | time {h m s f : Text} {hours minutes seconds micros : Nat} (hour : TwoDigits h hours)
      (minute : TwoDigits m minutes) (second : TwoDigits s seconds) (fraction : Fraction f micros)
      (minutesFit : minutes < 60) (secondsFit : seconds < 60)
      (within : 3600000000 * hours + 60000000 * minutes + 1000000 * seconds + micros ≤ 86400000000) :
      Means (h ++ ':' :: (m ++ ':' :: (s ++ f)))
        (3600000000 * hours + 60000000 * minutes + 1000000 * seconds + micros)

theorem Fraction.unique {t : Text} {n k : Nat} (left : Fraction t n) (right : Fraction t k) : n = k := by
  cases left with
  | none =>
    cases right
    rfl
  | places =>
    cases right
    rfl

theorem Means.unique {t : Text} {n k : Nat} (left : Means t n) (right : Means t k) : n = k := by
  cases left with
  | @time h m s f _ _ _ _ hour minute second fraction =>
    generalize same : h ++ ':' :: (m ++ ':' :: (s ++ f)) = t at right
    cases right with
    | time hourToo minuteToo secondToo fractionToo =>
      obtain ⟨rfl, behindHour⟩ := List.append_inj same (hour.length.trans hourToo.length.symm)
      obtain ⟨rfl, behindMinute⟩ :=
        List.append_inj (List.cons.inj behindHour).2 (minute.length.trans minuteToo.length.symm)
      obtain ⟨rfl, rfl⟩ := List.append_inj (List.cons.inj behindMinute).2 (second.length.trans secondToo.length.symm)
      rw [← hour.value, ← minute.value, ← second.value, hourToo.value, minuteToo.value, secondToo.value,
        fraction.unique fractionToo]

theorem twoDigitsPadded {n : Nat} (fits : n < 100) : TwoDigits (Text.padded 2 n) n :=
  ⟨Text.paddedLength (by decide) fits, fun _ => Text.paddedDigits, Text.toNatPadded 2 n⟩

theorem fractionPadded (width : Nat) {n micros : Nat} (some : 0 < width) (few : width ≤ 6) (fits : n < 10 ^ width)
    (value : n * 10 ^ (6 - width) = micros) : Fraction ('.' :: Text.padded width n) micros := by
  have length := Text.paddedLength some fits
  have filled : Text.padded width n ≠ [] := List.ne_nil_of_length_pos (some.trans_eq length.symm)
  have fraction := Fraction.places filled (length.trans_le few) fun _ => Text.paddedDigits
  rwa [Text.toNatPadded, length, value] at fraction

theorem fractionPrinted {micros : Nat} (below : micros < 1000000) :
    Fraction (printFraction (micros * 1000)) micros := by
  unfold printFraction
  by_cases zero : micros * 1000 = 0
  · obtain rfl : micros = 0 := by omega
    rw [if_pos zero]
    exact .none
  by_cases millis : micros * 1000 % 1000000 = 0
  · rw [if_neg zero, if_pos millis]
    exact fractionPadded 3 (by decide) (by decide) (by omega) (by omega)
  · rw [if_neg zero, if_neg millis, if_pos (Nat.mul_mod_left micros 1000)]
    exact fractionPadded 6 (by decide) (by decide) (by omega) (by omega)

theorem printMeans {n : Nat} (early : n < 86400000000) : Means (print ⟨n / 1000000, n % 1000000 * 1000⟩) n := by
  have below : n % 1000000 * 1000 < 1000000000 := by omega
  have parts : 3600000000 * (n / 1000000 / 3600) + 60000000 * (n / 1000000 / 60 % 60) +
      1000000 * (n / 1000000 % 60) + n % 1000000 = n := by omega
  have means := Means.time (twoDigitsPadded (n := n / 1000000 / 3600) (by omega))
    (twoDigitsPadded (n := n / 1000000 / 60 % 60) (by omega)) (twoDigitsPadded (n := n / 1000000 % 60) (by omega))
    (fractionPrinted (Nat.mod_lt n (by decide))) (by omega) (by omega) (by omega)
  rw [parts] at means
  simpa only [print, Nat.div_eq_of_lt below, Nat.mod_eq_of_lt below, Nat.add_zero, List.append_assoc,
    List.cons_append] using means

theorem ofMicrosMod (n : Nat) :
    ofMicros n = ⟨n % 86400000000 / 1000000, n % 86400000000 % 1000000 * 1000⟩ := by
  have day : ((n : Int) % microsPerDay).toNat = n % 86400000000 := by
    unfold microsPerDay
    omega
  unfold ofMicros
  rw [day]

theorem ofMicrosMeans (n : Nat) : Means (print (ofMicros n)) (n % 86400000000) := by
  rw [ofMicrosMod]
  exact printMeans (Nat.mod_lt n (by decide))

end Clock

namespace Row

theorem timeDecoded {n : Nat} (within : n ≤ 86400000000) (index : Nat) (t : Text) :
    column index (.scalar .time) (some (Bytes.ofInt 8 n)) = .ok (.string t) ↔ (Clock.ofMicros n).print = t := by
  rw [columnFound rfl, scalar?, Bytes.exactIntOfInt (by omega) (by omega)]
  exact ⟨fun same => Json.string.inj (Option.some.inj same), fun same => same ▸ rfl⟩

/-- Every time of a day is decoded as a text that means it, but for the end of the day, which is decoded as its
beginning is; no other two are decoded alike. -/
theorem timesDecoded {n : Nat} (within : n ≤ 86400000000) (index : Nat) :
    ∃ t, column index (.scalar .time) (some (Bytes.ofInt 8 n)) = .ok (.string t) ∧
      (Clock.Means t n ↔ n < 86400000000) ∧
      ∀ k : Nat, k ≤ 86400000000 → (column index (.scalar .time) (some (Bytes.ofInt 8 k)) = .ok (.string t) ↔
        k % 86400000000 = n % 86400000000) := by
  have means := Clock.ofMicrosMeans n
  refine ⟨_, (timeDecoded within index _).mpr rfl, ⟨fun meansToo => ?_, fun early => ?_⟩, fun k withinToo => ?_⟩
  · rw [meansToo.unique means]
    exact Nat.mod_lt n (by decide)
  · rwa [Nat.mod_eq_of_lt early] at means
  · rw [timeDecoded withinToo]
    refine ⟨fun same => (same ▸ Clock.ofMicrosMeans k).unique means, fun same => ?_⟩
    rw [Clock.ofMicrosMod, Clock.ofMicrosMod, same]

theorem lastTimeDecoded :
    let last : Nat := 86399999999
    let text : Text := "23:59:59.999999"
    last ≤ 86400000000 ∧ column 0 (.scalar .time) (some (Bytes.ofInt 8 last)) = .ok (.string text) ∧
      Clock.Means text last ∧
      ∀ k : Nat, k ≤ 86400000000 → (column 0 (.scalar .time) (some (Bytes.ofInt 8 k)) = .ok (.string text) ↔
        k = last) := by
  intro last text
  have within : last ≤ 86400000000 := by decide
  have printed : column 0 (.scalar .time) (some (Bytes.ofInt 8 last)) = .ok (.string text) := by decide +kernel
  obtain ⟨t, sent, means, alike⟩ := timesDecoded within 0
  obtain rfl : text = t := Json.string.inj (Except.ok.inj (printed.symm.trans sent))
  refine ⟨within, sent, means.mpr (by decide), fun k early => (alike k early).trans ?_⟩
  change k % 86400000000 = 86399999999 % 86400000000 ↔ k = 86399999999
  omega

theorem endOfDayWrapped :
    let text : Text := "00:00:00"
    column 0 (.scalar .time) (some (Bytes.ofInt 8 86400000000)) = .ok (.string text) ∧
      column 0 (.scalar .time) (some (Bytes.ofInt 8 0)) = .ok (.string text) ∧
      ¬ Clock.Means text 86400000000 ∧ Clock.Means "24:00:00" 86400000000 := by
  intro text
  have start : Clock.Means text 0 :=
    .time (Clock.twoDigitsPadded (n := 0) (by decide)) (Clock.twoDigitsPadded (n := 0) (by decide))
      (Clock.twoDigitsPadded (n := 0) (by decide)) .none (by decide) (by decide) (by decide)
  have ending : Clock.Means "24:00:00" 86400000000 :=
    .time (Clock.twoDigitsPadded (n := 24) (by decide)) (Clock.twoDigitsPadded (n := 0) (by decide))
      (Clock.twoDigitsPadded (n := 0) (by decide)) .none (by decide) (by decide) (by decide)
  refine ⟨by decide +kernel, by decide +kernel, fun means => ?_, ending⟩
  cases means.unique start

end Row
end TableGateway
