import TableGateway.Bytes
import TableGateway.Decimal

/-! Decimals on the wire: groups of four digits, highest first, the power of 10000 of the first group, a
sign and the number of places to show. A sign with both of its high bits set means no number. -/
namespace TableGateway

structure Numeric where
  groups : List Nat
  weight : Int
  negative : Bool
  scale : Nat
  deriving DecidableEq, Repr

namespace Numeric

def toBytes (n : Numeric) : Bytes :=
  Bytes.ofNat 2 n.groups.length ++ Bytes.ofInt 2 n.weight ++
    Bytes.ofNat 2 (if n.negative then 0x4000 else 0) ++ Bytes.ofNat 2 n.scale ++
    n.groups.flatMap (Bytes.ofNat 2)

def readGroups? : (count : Nat) → Bytes → Option (List Nat)
  | 0, _ => some []
  | count + 1, bs => do
    let (group, rest) ← Bytes.readNat? 2 bs
    let others ← readGroups? count rest
    some (group :: others)

def ofBytes? (bs : Bytes) : Option Numeric := do
  let (count, bs) ← Bytes.readNat? 2 bs
  let (weight, bs) ← Bytes.readInt? 2 bs
  let (sign, bs) ← Bytes.readNat? 2 bs
  let (scale, bs) ← Bytes.readNat? 2 bs
  if 0xC000 ≤ sign then none
  else
    let groups ← readGroups? count bs
    some ⟨groups, weight, sign = 0x4000, scale⟩

def groupsOf : (count : Nat) → (n : Nat) → List Nat
  | 0, _ => []
  | count + 1, n => groupsOf count (n / 10000) ++ [n % 10000]

def ofDecimal (d : Decimal) : Numeric :=
  if d.mantissa = 0 then ⟨[], 0, false, 0⟩
  else
    let fractional := (d.scale + 3) / 4
    let groups := (groupsOf 9 (d.mantissa * 10 ^ (4 * fractional - d.scale))).dropWhile (· = 0)
    let whole := groups.length - fractional
    let kept := if whole = 0 then groups else
      groups.take whole ++ ((groups.drop whole).reverse.dropWhile (· = 0)).reverse
    ⟨kept, (groups.length : Int) - fractional - 1, d.negative, d.scale⟩

def wholePart? (n : Nat) : List Nat → Option Nat
  | [] => some n
  | group :: rest =>
    let next := n * 10000 + group
    if next < 2 ^ 96 then wholePart? next rest else none

/-- Groups after the point; the next one stands for `place` places. The one after 28 places only rounds. -/
def fraction? (x : Nat × Nat) (place : Nat) : List Nat → Option (Nat × Nat)
  | [] => some x
  | group :: rest => do
    let x ← if place ≤ 28 then Decimal.sum? x (Decimal.strip group place)
      else if place = 32 ∧ 5000 ≤ group then Decimal.sum? x (1, 28)
      else some x
    fraction? x (place + 4) rest

def toDecimal? (n : Numeric) : Option Decimal := do
  let whole := (n.weight + 1).toNat
  let missing := whole - n.groups.length
  let start ← wholePart? 0 (n.groups.take whole)
  if 7 < missing then none
  else
    let start := start * 10 ^ (4 * missing)
    if start < 2 ^ 96 then
      let first := 4 * (1 + (-n.weight - 1).toNat)
      let (m, scale) ← fraction? (start, 0) first (n.groups.drop whole)
      let (m, scale) := Decimal.rescale m scale n.scale
      Decimal.make? n.negative m scale
    else none

end Numeric
end TableGateway
