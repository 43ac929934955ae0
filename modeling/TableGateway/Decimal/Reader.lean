import TableGateway.Decimal
import TableGateway.Number.Integral

/-! Decimal text: a sign, digits with one point, underscores after the first digit, and an optional
exponent. The first digit that no longer fits after the point decides the rounding, and only digits and
underscores may follow it. Places that an exponent moves beyond the last one are rounded away. -/
namespace TableGateway
namespace Decimal
namespace Reader

structure Progress where
  mantissa : Nat := 0
  scale : Nat := 0
  digits : Bool := false
  point : Bool := false
  deriving DecidableEq, Repr

def isFiller (c : Char) : Bool := c.isDigit || c = '_'

def raise? (mantissa scale : Nat) : Option (Nat × Nat) :=
  if mantissa + 1 < 2 ^ 96 then some (mantissa + 1, scale)
  else if scale = 0 then none
  else some ((mantissa + 5) / 10, scale - 1)

def round? (mantissa scale : Nat) (next : Char) (rest : Text) : Option (Nat × Nat) :=
  if !isFiller next || !rest.all isFiller then none
  else if next.isDigit ∧ 5 ≤ Text.digitValue next then raise? mantissa scale
  else some (mantissa, scale)

def isNarrow (mantissa : Nat) : Bool := mantissa / 10 < (2 ^ 64 - 1) / 10 - 255

/-- What follows the last place. An underscore there stands for the digit 0 when the mantissa is narrow, and
otherwise for nothing. -/
def full? (mantissa scale : Nat) (t : Text) : Option (Nat × Nat) :=
  match if isNarrow mantissa then t else t.dropWhile (· = '_') with
  | [] => some (mantissa, scale)
  | c :: rest => round? mantissa scale c rest

def digits? (p : Progress) : Text → Option (Nat × Nat)
  | [] => if p.digits then some (p.mantissa, p.scale) else none
  | c :: rest =>
    if p.point ∧ 28 ≤ p.scale then full? p.mantissa p.scale (c :: rest)
    else if c.isDigit then
      let next := 10 * p.mantissa + Text.digitValue c
      if next < 2 ^ 96 then
        digits? ⟨next, if p.point then p.scale + 1 else 0, true, p.point⟩ rest
      else if p.point then round? p.mantissa p.scale c rest
      else none
    else if c = '.' ∧ !p.point then digits? { p with point := true } rest
    else if c = '_' ∧ p.digits then digits? p rest
    else none

def plain? (t : Text) : Option Decimal :=
  let (negative, rest) : Bool × Text := match t with
    | '-' :: r => (true, r)
    | '+' :: r => (false, r)
    | r => (false, r)
  (digits? {} rest).bind fun (m, s) => make? (negative && m != 0) m s

def down? (base : Decimal) (e : Nat) : Option Decimal :=
  if 28 < e then none
  else if base.scale + e ≤ 28 then make? base.negative base.mantissa (base.scale + e)
  else make? base.negative (rescale base.mantissa base.scale (28 - e)).1 28

def up? (base : Decimal) (e : Nat) : Option Decimal :=
  if e ≤ base.scale then make? base.negative base.mantissa (base.scale - e)
  else if 28 < e then none
  else make? base.negative (base.mantissa * 10 ^ (e - base.scale)) 0

def shift? (base : Decimal) (exponent : Text) : Option Decimal :=
  let count (t : Text) : Option Nat :=
    (Integral.read (.unsigned 32) t).toOption.map Int.toNat
  match exponent with
  | '-' :: t => (count t).bind (down? base)
  | t => (count t).bind (up? base)

end Reader

def read? (t : Text) : Option Decimal :=
  let isMark (c : Char) : Bool := c = 'e' || c = 'E'
  if t.any isMark then do
    let base ← Reader.plain? (t.takeWhile (!isMark ·))
    Reader.shift? base ((t.dropWhile (!isMark ·)).drop 1)
  else Reader.plain? t

end Decimal
end TableGateway
