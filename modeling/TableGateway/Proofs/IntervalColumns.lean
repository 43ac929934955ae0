import Mathlib.Data.List.TakeWhile
import TableGateway.Proofs.ArrayColumns
import TableGateway.Proofs.Durations
import TableGateway.Proofs.WrittenDates

/-! Spans of time in a column. What is printed is a duration that means the span that was sent, at both ends of every
field too, so that no two spans are printed alike. -/
namespace TableGateway

namespace Text

theorem trimZerosSplit (t : Text) : ∃ k, t = Interval.trimZeros t ++ List.replicate k '0' := by
  have parts : t = Interval.trimZeros t ++ (t.reverse.takeWhile (· = '0')).reverse := by
    rw [Interval.trimZeros, ← List.reverse_append, List.takeWhile_append_dropWhile, List.reverse_reverse]
  have zeros : ∀ c ∈ (t.reverse.takeWhile (· = '0')).reverse, c = '0' := fun c member => by
    simpa using List.mem_takeWhile_imp (List.mem_reverse.mp member)
  exact ⟨_, List.eq_replicate_of_mem zeros ▸ parts⟩

theorem toNatBeforeZeros (t : Text) (k : Nat) : toNat (t ++ List.replicate k '0') = toNat t * 10 ^ k := by
  rw [toNat, Nat.ofDigitChars_append, Nat.ofDigitChars_replicate_zero, Nat.mul_comm, toNat]

theorem trimmedFraction (width : Nat) {n : Nat} (some : 0 < n) (fits : n < 10 ^ width) :
    let places := Interval.trimZeros (padded width n)
    places ≠ [] ∧ places.length ≤ width ∧ (∀ c ∈ places, c.isDigit) ∧
      toNat places * 10 ^ (width - places.length) = n := by
  intro places
  have wide : 0 < width := Nat.pos_of_ne_zero fun none => by
    rw [none] at fits
    omega
  obtain ⟨k, split⟩ := trimZerosSplit (padded width n)
  have length : width = places.length + k := by
    rw [← paddedLength wide fits, split, List.length_append, List.length_replicate]
  have value : toNat places * 10 ^ k = n := by
    rw [← toNatBeforeZeros, ← split, toNatPadded]
  refine ⟨fun empty => ?_, by omega, fun c member => paddedDigits (split ▸ List.mem_append_left _ member), ?_⟩
  · rw [empty] at value
    simp [toNat] at value
    omega
  · rw [show width - places.length = k by omega, value]

end Text

namespace Interval

open Duration

def toBytes (i : Interval) : Bytes := Bytes.ofInt 8 i.micros ++ Bytes.ofInt 4 i.days ++ Bytes.ofInt 4 i.months

structure Fits (i : Interval) : Prop where
  micros : -2 ^ 63 ≤ i.micros ∧ i.micros < 2 ^ 63
  days : -2 ^ 31 ≤ i.days ∧ i.days < 2 ^ 31
  months : -2 ^ 31 ≤ i.months ∧ i.months < 2 ^ 31

theorem ofBytesToBytes {i : Interval} (fits : i.Fits) : ofBytes? i.toBytes = some i := by
  obtain ⟨⟨microsLow, microsHigh⟩, ⟨daysLow, daysHigh⟩, monthsLow, monthsHigh⟩ := fits
  have length : i.toBytes.length = 16 := by simp [toBytes]
  have first : i.toBytes.take 8 = Bytes.ofInt 8 i.micros := by
    rw [toBytes, List.append_assoc, List.take_left' (Bytes.lengthOfInt 8 _)]
  have second : (i.toBytes.drop 8).take 4 = Bytes.ofInt 4 i.days := by
    rw [toBytes, List.append_assoc, List.drop_left' (Bytes.lengthOfInt 8 _), List.take_left' (Bytes.lengthOfInt 4 _)]
  have third : i.toBytes.drop 12 = Bytes.ofInt 4 i.months := by
    rw [toBytes, List.drop_left' (by simp)]
  rw [ofBytes?, if_pos length, first, second, third, Bytes.toIntOfInt (by omega) (by omega),
    Bytes.toIntOfInt (by omega) (by omega), Bytes.toIntOfInt (by omega) (by omega)]

def unitText (sign : Text) (unit : Char) (n : Nat) : Text := if n = 0 then [] else sign ++ Text.ofNat n ++ [unit]

def secondsText (sign : Text) (seconds fraction : Nat) : Text :=
  if fraction = 0 then unitText sign 'S' seconds
  else sign ++ Text.ofNat seconds ++ '.' :: trimZeros (Text.padded 6 fraction) ++ ['S']

theorem unitTextEmpty {sign : Text} {unit : Char} {n : Nat} : unitText sign unit n = [] ↔ n = 0 := by
  rw [unitText]
  split <;> simp [*]

theorem secondsTextEmpty {sign : Text} {seconds fraction : Nat} :
    secondsText sign seconds fraction = [] ↔ seconds = 0 ∧ fraction = 0 := by
  rw [secondsText]
  split <;> simp [unitTextEmpty, *]

theorem unitPart {sign : Text} {σ : Int} (signed : Sign sign σ) (unit : Char) (n : Nat) :
    Part unit (unitText sign unit n) (σ * n) := by
  rw [unitText]
  split
  case isTrue none =>
    rw [none, Int.natCast_zero, Int.mul_zero]
    exact .absent
  case isFalse =>
    have part : Part unit _ _ := .present signed (Text.ofNatNotEmpty n) fun c => Text.ofNatDigits
    rwa [Text.toNatOfNat, ← List.append_assoc] at part

theorem secondsPart {sign : Text} {σ : Int} (signed : Sign sign σ) (seconds : Nat) {fraction : Nat}
    (fits : fraction < 1000000) :
    Seconds (secondsText sign seconds fraction) (σ * (1000000 * seconds + fraction : Nat)) := by
  rw [secondsText]
  split
  case isTrue none =>
    have whole : σ * (1000000 * seconds + fraction : Nat) = 1000000 * (σ * seconds) := by
      rw [none]
      push_cast
      ring
    exact whole ▸ .whole (unitPart signed 'S' seconds)
  case isFalse some =>
    obtain ⟨filled, few, all, value⟩ := Text.trimmedFraction 6 (Nat.pos_of_ne_zero some) fits
    have part := Seconds.decimal signed (Text.ofNatNotEmpty seconds) (fun c => Text.ofNatDigits) filled few all
    rw [value, Text.toNatOfNat] at part
    simpa only [List.append_assoc, List.cons_append] using part

theorem ofIntSigned (n : Int) :
    ∃ sign σ, Sign sign σ ∧ Text.ofInt n = sign ++ Text.ofNat n.natAbs ∧ n = σ * n.natAbs := by
  cases n with
  | ofNat n => exact ⟨[], 1, .plus, rfl, by simp⟩
  | negSucc n => exact ⟨['-'], -1, .minus, rfl, by omega⟩

theorem componentPart (n : Int) (unit : Char) : Part unit (component n unit) n := by
  obtain ⟨sign, σ, signed, text, value⟩ := ofIntSigned n
  have same : component n unit = unitText sign unit n.natAbs := by
    simp only [component, unitText, Int.natAbs_eq_zero, text]
  have part := unitPart signed unit n.natAbs
  rwa [← value, ← same] at part

theorem componentEmpty {n : Int} {unit : Char} : component n unit = [] ↔ n = 0 := by
  rw [component]
  split <;> simp [*]

def clockSign (micros : Int) : Text := if micros < 0 then ['-'] else []

theorem clockSigned (micros : Int) : ∃ σ, Sign (clockSign micros) σ ∧ micros = σ * micros.natAbs := by
  rw [clockSign]
  split
  · exact ⟨-1, .minus, by omega⟩
  · exact ⟨1, .plus, by omega⟩

theorem clockTextParts (micros : Int) : clockText micros =
    'T' :: (unitText (clockSign micros) 'H' (micros.natAbs / 3600000000) ++
      (unitText (clockSign micros) 'M' (micros.natAbs / 60000000 % 60) ++
        secondsText (clockSign micros) (micros.natAbs / 1000000 % 60) (micros.natAbs % 1000000))) := by
  simp only [clockText, unitText, secondsText, clockSign, List.cons_append, List.append_assoc]

theorem clockTime {micros : Int} (some : micros ≠ 0) : Time (clockText micros) micros := by
  obtain ⟨σ, signed, value⟩ := clockSigned micros
  have positive : 0 < micros.natAbs := Int.natAbs_pos.mpr some
  have fits : micros.natAbs % 1000000 < 1000000 := Nat.mod_lt _ (by decide)
  have parts : micros.natAbs = 3600000000 * (micros.natAbs / 3600000000) + 60000000 * (micros.natAbs / 60000000 % 60) +
      (1000000 * (micros.natAbs / 1000000 % 60) + micros.natAbs % 1000000) := by omega
  rw [clockTextParts]
  generalize micros.natAbs / 3600000000 = hours at *
  generalize micros.natAbs / 60000000 % 60 = minutes at *
  generalize micros.natAbs / 1000000 % 60 = seconds at *
  generalize micros.natAbs % 1000000 = fraction at *
  have total : 3600000000 * (σ * hours) + 60000000 * (σ * minutes) + σ * (1000000 * seconds + fraction : Nat) =
      micros := by
    conv_rhs => rw [value, parts]
    push_cast
    ring
  have filled : unitText (clockSign micros) 'H' hours ++
      (unitText (clockSign micros) 'M' minutes ++ secondsText (clockSign micros) seconds fraction) ≠ [] := by
    simp only [ne_eq, List.append_eq_nil_iff, unitTextEmpty, secondsTextEmpty]
    omega
  have time := Time.present (unitPart signed 'H' hours) (unitPart signed 'M' minutes)
    (secondsPart signed seconds fits) filled
  rwa [total] at time

theorem printMeans (i : Interval) : Means i.print i := by
  obtain ⟨micros, days, months⟩ := i
  rw [print]
  split
  case isTrue none =>
    obtain ⟨rfl, rfl, rfl⟩ := none
    have zero : Part 'S' ['0', 'S'] 0 := @Part.present 'S' [] ['0'] 1 .plus (by decide) (by simp)
    have seconds : Seconds ['0', 'S'] 0 := .whole zero
    exact .duration .absent .absent .absent (.present .absent .absent seconds (by decide)) (by decide)
  case isFalse some =>
    dsimp only at some
    have year : 12 * months.tdiv 12 + months.tmod 12 = months := Int.mul_tdiv_add_tmod months 12
    have time : Time (if micros = 0 then [] else clockText micros) micros := by
      split
      case isTrue none => exact none ▸ .absent
      case isFalse some => exact clockTime some
    have filled : component (months.tdiv 12) 'Y' ++ (component (months.tmod 12) 'M' ++
        (component days 'D' ++ if micros = 0 then [] else clockText micros)) ≠ [] := by
      have clock : (if micros = 0 then [] else clockText micros) = [] ↔ micros = 0 := by
        split <;> simp [clockText, *]
      simp only [ne_eq, List.append_eq_nil_iff, componentEmpty, clock]
      omega
    have means := Means.duration (componentPart (months.tdiv 12) 'Y') (componentPart (months.tmod 12) 'M')
      (componentPart days 'D') time filled
    rw [year] at means
    simpa only [List.cons_append, List.append_assoc] using means

end Interval

namespace Row

theorem intervalsReadBack {i : Interval} (fits : i.Fits) (index : Nat) :
    ∃ t, column index (.scalar .interval) (some i.toBytes) = .ok (.string t) ∧ Duration.Means t i ∧
      Duration.read? t = some i ∧
      ∀ j : Interval, j.Fits → column index (.scalar .interval) (some j.toBytes) = .ok (.string t) → j = i := by
  have decoded {j : Interval} (fits : j.Fits) (t : Text) :
      column index (.scalar .interval) (some j.toBytes) = .ok (.string t) ↔ j.print = t := by
    rw [columnFound rfl, scalar?, Interval.ofBytesToBytes fits]
    exact ⟨fun same => Json.string.inj (Option.some.inj same), fun same => same ▸ rfl⟩
  have means := i.printMeans
  refine ⟨i.print, (decoded fits _).mpr rfl, means, Duration.read means, fun j fitsToo same => ?_⟩
  exact Duration.Means.unique ((decoded fitsToo _).mp same ▸ j.printMeans) means

theorem leastIntervalReadsBack :
    let least : Interval := ⟨-2 ^ 63, -2 ^ 31, -2 ^ 31⟩
    let text : Text := "P-178956970Y-8M-2147483648DT-2562047788H-54.775808S"
    least.Fits ∧ column 0 (.scalar .interval) (some least.toBytes) = .ok (.string text) ∧
      Duration.Means text least ∧ Duration.read? text = some least ∧
      ∀ j : Interval, j.Fits → column 0 (.scalar .interval) (some j.toBytes) = .ok (.string text) → j = least := by
  intro least text
  have fits : least.Fits := ⟨by decide, by decide, by decide⟩
  have printed : column 0 (.scalar .interval) (some least.toBytes) = .ok (.string text) := by decide +kernel
  obtain ⟨t, sent, means⟩ := intervalsReadBack fits 0
  obtain rfl : text = t := Json.string.inj (Except.ok.inj (printed.symm.trans sent))
  exact ⟨fits, sent, means⟩

end Row
end TableGateway
