import TableGateway.Text

/-! Bytes spelled as pairs of hexadecimal digits, small letters when written, either case when read. -/
namespace TableGateway

abbrev Bytes := List UInt8

namespace Hex

def digit (n : Nat) : Char := Nat.digitChar n

def ofByte (b : UInt8) : Text := [digit (b.toNat / 16), digit (b.toNat % 16)]

def ofBytes (bs : Bytes) : Text := bs.flatMap ofByte

def value? (c : Char) : Option Nat :=
  if c.isDigit then some (c.toNat - '0'.toNat)
  else if 'a' ≤ c ∧ c ≤ 'f' then some (c.toNat - 'a'.toNat + 10)
  else if 'A' ≤ c ∧ c ≤ 'F' then some (c.toNat - 'A'.toNat + 10)
  else none

def toBytes? : Text → Option Bytes
  | [] => some []
  | [_] => none
  | a :: b :: rest => do
    let high ← value? a
    let low ← value? b
    let tail ← toBytes? rest
    some (UInt8.ofNat (16 * high + low) :: tail)

end Hex
end TableGateway
