import TableGateway.Text

/-! The proleptic Gregorian calendar, with days counted from 2000-01-01, and moments as a day, a second of
that day and nanoseconds. A leap second is the second before it with a billion nanoseconds or more. -/
namespace TableGateway

structure Date where
  year : Int
  month : Nat
  day : Nat
  deriving DecidableEq, Repr

namespace Date

def isLeap (year : Int) : Bool := year % 4 = 0 && (year % 100 ≠ 0 || year % 400 = 0)

def monthLength (year : Int) (month : Nat) : Nat :=
  if month = 2 then if isLeap year then 29 else 28
  else if month = 4 ∨ month = 6 ∨ month = 9 ∨ month = 11 then 30
  else 31

def firstYear : Int := -262143

def lastYear : Int := 262142

def valid (d : Date) : Bool :=
  firstYear ≤ d.year ∧ d.year ≤ lastYear ∧ 1 ≤ d.month ∧ d.month ≤ 12 ∧ 1 ≤ d.day ∧
    d.day ≤ monthLength d.year d.month

/-- Years are taken to begin in March, so that the leap day ends them; 400 of them have 146097 days, and
2000-03-01 began such a span. -/
def toDay (d : Date) : Int :=
  let year := if d.month ≤ 2 then d.year - 1 else d.year
  let era := year / 400
  let ofEra := year % 400
  let ofYear : Int := (153 * ((d.month + 9) % 12) + 2) / 5 + d.day - 1
  (era - 5) * 146097 + (ofEra * 365 + ofEra / 4 - ofEra / 100 + ofYear) + 60

def ofDay (n : Int) : Date :=
  let era := (n - 60) / 146097
  let ofEra := (n - 60) % 146097
  let year := (ofEra - ofEra / 1460 + ofEra / 36524 - ofEra / 146096) / 365
  let ofYear := (ofEra - (365 * year + year / 4 - year / 100)).toNat
  let month := (5 * ofYear + 2) / 153
  let day := ofYear - (153 * month + 2) / 5 + 1
  let month := if month < 10 then month + 3 else month - 9
  ⟨year + (era + 5) * 400 + (if month ≤ 2 then 1 else 0), month, day⟩

def ofDay? (n : Int) : Option Date := if (ofDay n).valid then some (ofDay n) else none

def printYear (year : Int) : Text :=
  if 0 ≤ year ∧ year ≤ 9999 then Text.padded 4 year.toNat
  else (if year < 0 then '-' else '+') :: Text.padded 4 year.natAbs

def print (d : Date) : Text :=
  printYear d.year ++ '-' :: Text.padded 2 d.month ++ '-' :: Text.padded 2 d.day

end Date

structure Clock where
  second : Nat
  nano : Nat
  deriving DecidableEq, Repr

namespace Clock

def microsPerDay : Int := 86400000000

def ofMicros (n : Int) : Clock :=
  let n := (n % microsPerDay).toNat
  ⟨n / 1000000, n % 1000000 * 1000⟩

def printFraction (nano : Nat) : Text :=
  if nano = 0 then []
  else if nano % 1000000 = 0 then '.' :: Text.padded 3 (nano / 1000000)
  else if nano % 1000 = 0 then '.' :: Text.padded 6 (nano / 1000)
  else '.' :: Text.padded 9 nano

def print (c : Clock) : Text :=
  let leap := c.nano / 1000000000
  Text.padded 2 (c.second / 3600) ++ ':' :: Text.padded 2 (c.second / 60 % 60) ++
    ':' :: Text.padded 2 (c.second % 60 + leap) ++ printFraction (c.nano % 1000000000)

end Clock

structure Stamp where
  day : Int
  clock : Clock
  deriving DecidableEq, Repr

namespace Stamp

def ofMicros? (n : Int) : Option Stamp :=
  (Date.ofDay? (n / Clock.microsPerDay)).map fun _ =>
    ⟨n / Clock.microsPerDay, Clock.ofMicros n⟩

def toMicros (s : Stamp) : Int :=
  ((s.day * 86400 + s.clock.second) * 1000000000 + s.clock.nano).tdiv 1000

def print (s : Stamp) : Text := (Date.ofDay s.day).print ++ 'T' :: s.clock.print

def printUniversal (s : Stamp) : Text := print s ++ "+00:00"

def earlier? (s : Stamp) (seconds : Int) : Option Stamp :=
  let total := s.day * 86400 + s.clock.second - seconds
  (Date.ofDay? (total / 86400)).map fun _ =>
    ⟨total / 86400, ⟨(total % 86400).toNat, s.clock.nano⟩⟩

end Stamp
end TableGateway
