import TableGateway.Decimal
import TableGateway.Number.Binary

/-! A decimal for a binary number, to about sixteen digits. Whole numbers of 96 bits are taken as they are.
Below the point powers of two are exchanged for powers of ten one at a time within 96 bits, and what then
exceeds the precision of a float is rounded away. -/
namespace TableGateway
namespace Decimal

/-- One factor 1/2 is taken out of an even mantissa, or becomes 5/10, or is taken out without room. The
second number counts the tens below the line. -/
def halve : Nat × Nat → Nat × Nat
  | (m, places) =>
    if m % 2 = 0 then (m / 2, places)
    else if m * 5 < 2 ^ 96 then (m * 5, places + 1)
    else (m / 2, places)

def dropPlaces (m : Nat) : (n : Nat) → Nat
  | 0 => m
  | n + 1 => if m < 10 then 0 else dropPlaces (roundDiv .up m 10) n

def trimPrecision (m : Nat) : (places : Nat) → Nat × Nat
  | 0 => (m, 0)
  | places + 1 => if 2 ^ 52 ≤ m then trimPrecision (roundDiv .up m 10) places else (m, places + 1)

def halveTimes : (n : Nat) → Nat × Nat → Nat × Nat
  | 0, x => x
  | n + 1, x => halveTimes n (halve x)

def ofMagnitude? (negative : Bool) (m : Nat) (q : Int) : Option Decimal :=
  if 0 < q then make? negative (m * 2 ^ q.toNat) 0
  else
    let (m, places) := halveTimes (-q).toNat (m, 0)
    let m := dropPlaces m (places - 28)
    let (m, places) := trimPrecision m (if m = 0 then 0 else min places 28)
    let (m, scale) := strip m places
    make? negative m scale

def ofBinary? (x : Binary64) : Option Decimal :=
  match x.reading with
  | .finite negative 0 _ => make? negative 0 0
  | .finite negative m q => ofMagnitude? negative m q
  | _ => none

end Decimal
end TableGateway
