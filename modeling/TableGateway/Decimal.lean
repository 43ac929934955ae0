import TableGateway.Number.Rounding
import TableGateway.Text

/-! Decimal numbers with a mantissa of 96 bits and up to 28 places. The scale counts the places, also
the zeros at the end: `1.10` has the mantissa 110 and the scale 2. -/
namespace TableGateway

structure Decimal where
  negative : Bool
  mantissa : Nat
  scale : Nat
  mantissaBound : mantissa < 2 ^ 96
  scaleBound : scale ≤ 28
  deriving DecidableEq, Repr

namespace Decimal

def make? (negative : Bool) (mantissa scale : Nat) : Option Decimal :=
  if h : mantissa < 2 ^ 96 ∧ scale ≤ 28 then some ⟨negative, mantissa, scale, h.1, h.2⟩ else none

def print (d : Decimal) : Text :=
  let digits := Text.padded (d.scale + 1) d.mantissa
  let whole := digits.take (digits.length - d.scale)
  let places := digits.drop (digits.length - d.scale)
  (if d.negative then ['-'] else []) ++ whole ++ if d.scale = 0 then [] else '.' :: places

def widen (mantissa : Nat) : (n : Nat) → Nat × Nat
  | 0 => (mantissa, 0)
  | n + 1 => if mantissa * 10 < 2 ^ 96 then widen (mantissa * 10) n else (mantissa, n + 1)

def rescale (mantissa scale target : Nat) : Nat × Nat :=
  let target := min target 28
  if mantissa = 0 then (0, target)
  else if target < scale then (roundDiv .up mantissa (10 ^ (scale - target)), target)
  else
    let (m, left) := widen mantissa (target - scale)
    (m, target - left)

/-- The sum of two mantissas at their scales. When it leaves 96 bits, as few places as possible are
rounded away, a half to the even neighbour; without places to give it overflows. -/
def sum? (a b : Nat × Nat) : Option (Nat × Nat) :=
  let scale := max a.2 b.2
  let total := a.1 * 10 ^ (scale - a.2) + b.1 * 10 ^ (scale - b.2)
  ((List.range (scale + 1)).map fun drop => (roundDiv .even total (10 ^ drop), scale - drop)).find?
    fun x => x.1 < 2 ^ 96

def strip (mantissa : Nat) : (scale : Nat) → Nat × Nat
  | 0 => (mantissa, 0)
  | scale + 1 => if mantissa % 10 = 0 then strip (mantissa / 10) scale else (mantissa, scale + 1)

def ofInt? (n : Int) : Option Decimal := make? (n < 0) n.natAbs 0

end Decimal
end TableGateway
