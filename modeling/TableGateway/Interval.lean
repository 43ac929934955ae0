import TableGateway.Bytes

/-! Spans of time as the database keeps them: months, days and microseconds apart, each with a sign. A part
that is zero is not written, and every part that is written has a sign of its own. -/
namespace TableGateway

structure Interval where
  micros : Int
  days : Int
  months : Int
  deriving DecidableEq, Repr

namespace Interval

def ofBytes? (bs : Bytes) : Option Interval :=
  if bs.length = 16 then
    some ⟨Bytes.toInt (bs.take 8), Bytes.toInt ((bs.drop 8).take 4), Bytes.toInt (bs.drop 12)⟩
  else none

def component (n : Int) (designator : Char) : Text :=
  if n = 0 then [] else Text.ofInt n ++ [designator]

def trimZeros (t : Text) : Text := (t.reverse.dropWhile (· = '0')).reverse

def clockText (micros : Int) : Text :=
  let sign : Text := if micros < 0 then ['-'] else []
  let n := micros.natAbs
  let component (n : Nat) (designator : Char) : Text :=
    if n = 0 then [] else sign ++ Text.ofNat n ++ [designator]
  let seconds := n / 1000000 % 60
  let fraction := n % 1000000
  'T' :: component (n / 3600000000) 'H' ++ component (n / 60000000 % 60) 'M' ++
    if fraction = 0 then component seconds 'S'
    else sign ++ Text.ofNat seconds ++ '.' :: trimZeros (Text.padded 6 fraction) ++ ['S']

def print (i : Interval) : Text :=
  if i.micros = 0 ∧ i.days = 0 ∧ i.months = 0 then "PT0S"
  else
    'P' :: component (i.months.tdiv 12) 'Y' ++ component (i.months.tmod 12) 'M' ++
      component i.days 'D' ++ if i.micros = 0 then [] else clockText i.micros

end Interval
end TableGateway
