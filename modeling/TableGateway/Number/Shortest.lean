import TableGateway.Number.Binary

/-! The shortest decimal digits that still single out a binary number. Every number owns the interval of
values that round to it, its ends included when its significand is even. The decimal grids are tried
from coarse to fine; the first one with a point in the interval wins, and of two points the nearer. -/
namespace TableGateway

structure Scientific where
  digits : Nat
  exponent : Int
  deriving DecidableEq, Repr

namespace Shortest

structure Interval where
  low : Nat
  value : Nat
  high : Nat
  closed : Bool
  unit : Nat
  grain : Nat
  deriving DecidableEq, Repr

def interval (f : BinaryFormat) (m : Nat) (q : Int) : Interval :=
  { low := if m = 2 ^ f.fractionWidth ∧ f.least < q then 4 * m - 1 else 4 * m - 2
    value := 4 * m
    high := 4 * m + 2
    closed := m % 2 = 0
    unit := 2 ^ (q - 2).toNat
    grain := 2 ^ (2 - q).toNat }

namespace Interval

def steps (i : Interval) (scale : Int) : Nat × Nat :=
  (i.grain * 10 ^ scale.toNat, i.unit * 10 ^ (-scale).toNat)

def holds (i : Interval) (scale : Int) (c : Nat) : Bool :=
  let (grid, unit) := i.steps scale
  if i.closed then i.low * unit ≤ c * grid ∧ c * grid ≤ i.high * unit
  else i.low * unit < c * grid ∧ c * grid < i.high * unit

def floor (i : Interval) (scale : Int) : Nat := i.value * (i.steps scale).2 / (i.steps scale).1

def point? (i : Interval) (tie : Tie) (scale : Int) : Option Nat :=
  let c := i.floor scale
  let nearest := roundDiv tie (i.value * (i.steps scale).2) (i.steps scale).1
  match i.holds scale c, i.holds scale (c + 1) with
  | true, true => some nearest
  | true, false => some c
  | false, true => some (c + 1)
  | false, false => none

def search (i : Interval) (tie : Tie) (scale : Int) : Nat → Scientific
  | 0 => ⟨i.floor scale, scale⟩
  | fuel + 1 =>
    match i.point? tie scale with
    | some c => ⟨c, scale⟩
    | none => search i tie (scale - 1) fuel

end Interval

/-- A power of ten above `m * 2 ^ q`; 0.30103 lies just above the decimal logarithm of two. -/
def above (m : Nat) (q : Int) : Int := ((m.log2 : Int) + 1 + q) * 30103 / 100000 + 1

def digits (f : BinaryFormat) (tie : Tie) (m : Nat) (q : Int) : Scientific :=
  (interval f m q).search tie (above m q) 20

end Shortest
end TableGateway
