import TableGateway.Calendar

/-! Days and microseconds counted from 2000-01-01 and back. A count gives a date whose count it is, and a moment
within the range of dates has the microseconds that it was made from. -/
namespace TableGateway
namespace Date

theorem yearOfEra {day : Int} (low : 0 ≤ day) (high : day < 146097) :
    let year := (day - day / 1460 + day / 36524 - day / 146096) / 365
    0 ≤ year ∧ year < 400 ∧ 365 * year + year / 4 - year / 100 ≤ day ∧
      day < 365 * year + year / 4 - year / 100 + 366 := by
  intro year
  have bounds : 0 ≤ year ∧ year < 400 := by omega
  have centuries : day / 36524 ≤ day / 1460 := by omega
  have leapsLow : year / 4 ≤ day / 1460 := by omega
  have leapsHigh : day / 1460 ≤ year / 4 + 1 := by omega
  -- The last day of an era is the only one behind four whole centuries of 36524 days.
  have last : day / 146096 = 0 ∨ day = 146096 := by omega
  have century : year / 100 = day / 36524 - day / 146096 := by
    rcases last with inside | same
    · omega
    · subst same
      omega
  exact ⟨bounds.1, bounds.2, by omega, by omega⟩

theorem toDayMarch {era year : Int} {month : Nat} (low : 0 ≤ year) (high : year < 400) (within : month < 12)
    (day : Nat) :
    let named := if month < 10 then month + 3 else month - 9
    toDay ⟨year + (era + 5) * 400 + (if named ≤ 2 then 1 else 0), named, day⟩ =
      era * 146097 + (365 * year + year / 4 - year / 100) + ((153 * month + 2) / 5 + day - 1 : Int) + 60 := by
  intro named
  have counted : ((named : Int) + 9) % 12 = month := by
    simp only [named]
    split <;> omega
  have begun : (if named ≤ 2 then year + (era + 5) * 400 + (if named ≤ 2 then 1 else 0) - 1
      else year + (era + 5) * 400 + (if named ≤ 2 then 1 else 0)) = year + (era + 5) * 400 := by
    split <;> omega
  simp only [toDay, begun, counted]
  omega

theorem toDayOfDay (n : Int) : (ofDay n).toDay = n := by
  obtain ⟨low, high, before, within⟩ :=
    yearOfEra (Int.emod_nonneg (n - 60) (by decide)) (Int.emod_lt_of_pos (n - 60) (show 0 < 146097 by decide))
  refine (toDayMarch low high (by omega) _).trans ?_
  generalize ((n - 60) % 146097 - (n - 60) % 146097 / 1460 + (n - 60) % 146097 / 36524 -
    (n - 60) % 146097 / 146096) / 365 = year at *
  omega

theorem ofDayFound {n : Int} {d : Date} (found : ofDay? n = some d) : d = ofDay n ∧ d.valid ∧ d.toDay = n := by
  rw [ofDay?] at found
  split at found
  · cases found
    exact ⟨rfl, ‹_›, toDayOfDay n⟩
  · cases found

structure Bounded (d : Date) : Prop where
  month : d.month < 100
  day : d.day < 100

theorem validBounded {d : Date} (valid : d.valid) : d.Bounded := by
  have bounds := of_decide_eq_true valid
  have length : monthLength d.year d.month ≤ 31 := by
    unfold monthLength
    split
    · split <;> omega
    · split <;> omega
  exact ⟨by omega, by omega⟩

theorem toDayNear {d : Date} (valid : d.valid) : -100000000 < d.toDay ∧ d.toDay < 100000000 := by
  have bounds := of_decide_eq_true valid
  have bounded := validBounded valid
  have month := bounded.month
  have day := bounded.day
  simp only [firstYear, lastYear] at bounds
  rw [toDay]
  split <;> omega

theorem ofDayNear {n : Int} (valid : (ofDay n).valid) : -100000000 < n ∧ n < 100000000 := by
  have near := toDayNear valid
  rwa [toDayOfDay] at near

end Date

namespace Clock

structure Bounded (c : Clock) : Prop where
  second : c.second < 86400
  nano : c.nano < 1000000000

structure Within (c : Clock) : Prop where
  second : c.second < 86400
  nano : c.nano < 2000000000

theorem Bounded.within {c : Clock} (bounded : c.Bounded) : c.Within :=
  ⟨bounded.second, Nat.lt_trans bounded.nano (by decide)⟩

def settled (c : Clock) : Clock :=
  if c.second % 60 = 59 then c else ⟨c.second + c.nano / 1000000000, c.nano % 1000000000⟩

theorem Within.settled {c : Clock} (within : c.Within) : c.settled.second < 86400 := by
  have second := within.second
  have nano := within.nano
  rw [Clock.settled]
  split
  · exact second
  · simp only
    omega

theorem Bounded.settled {c : Clock} (bounded : c.Bounded) : c.settled = c := by
  have whole : c.nano / 1000000000 = 0 := Nat.div_eq_of_lt bounded.nano
  have part : c.nano % 1000000000 = c.nano := Nat.mod_eq_of_lt bounded.nano
  rw [Clock.settled, whole, part, Nat.add_zero, ite_self]

theorem ofMicrosBounded (n : Int) : (ofMicros n).Bounded := by
  have positive : (0 : Int) < microsPerDay := by decide
  have short := Int.emod_lt_of_pos n positive
  simp only [microsPerDay] at short
  refine ⟨?_, ?_⟩
  · simp only [ofMicros, microsPerDay]
    omega
  · simp only [ofMicros, microsPerDay]
    omega

end Clock

namespace Stamp

theorem ofMicrosFound {n : Int} {s : Stamp} (found : ofMicros? n = some s) :
    (Date.ofDay s.day).valid ∧ s.clock.Bounded ∧ s.toMicros = n := by
  obtain ⟨d, day, rfl⟩ := Option.map_eq_some_iff.mp found
  obtain ⟨rfl, valid, -⟩ := Date.ofDayFound day
  have whole : ((n / Clock.microsPerDay * 86400 + (Clock.ofMicros n).second) * 1000000000 +
      (Clock.ofMicros n).nano : Int) = n * 1000 := by
    simp only [Clock.ofMicros, Clock.microsPerDay]
    omega
  refine ⟨valid, Clock.ofMicrosBounded n, ?_⟩
  rw [toMicros, whole, Int.mul_tdiv_cancel n (by decide)]

def settled (s : Stamp) : Stamp := ⟨s.day, s.clock.settled⟩

theorem toMicrosSettled (s : Stamp) : s.settled.toMicros = s.toMicros := by
  have same : (s.clock.settled.second * 1000000000 + s.clock.settled.nano : Int) =
      s.clock.second * 1000000000 + s.clock.nano := by
    rw [Clock.settled]
    split
    · rfl
    · simp only
      omega
  have moment : ((s.day * 86400 + s.clock.settled.second) * 1000000000 + s.clock.settled.nano : Int) =
      (s.day * 86400 + s.clock.second) * 1000000000 + s.clock.nano := by omega
  rw [toMicros, toMicros, settled, moment]

def nanos (s : Stamp) : Int := (s.day * 86400 + s.clock.second) * 1000000000 + s.clock.nano

theorem toMicrosNanos (s : Stamp) : s.toMicros = s.nanos.tdiv 1000 := rfl

theorem microsFit {s : Stamp} (near : -100000000 < s.day ∧ s.day < 100000000) (within : s.clock.Within) :
    -2 ^ 63 ≤ s.toMicros ∧ s.toMicros < 2 ^ 63 := by
  have second := within.second
  have nano := within.nano
  have cut : (s.nanos.tdiv 1000).natAbs = s.nanos.natAbs / 1000 := Int.natAbs_tdiv s.nanos 1000
  rw [toMicrosNanos]
  simp only [nanos] at cut ⊢
  omega

end Stamp
end TableGateway
