import TableGateway.Text.Hex

/-! Numbers in big-endian bytes and text in UTF-8. -/
namespace TableGateway
namespace Bytes

def ofNat : (width : Nat) → (n : Nat) → Bytes
  | 0, _ => []
  | width + 1, n => ofNat width (n / 256) ++ [UInt8.ofNat n]

def toNat (bs : Bytes) : Nat := bs.foldl (fun n b => 256 * n + b.toNat) 0

def ofInt (width : Nat) (n : Int) : Bytes := ofNat width (n % (256 ^ width : Nat)).toNat

def toInt (bs : Bytes) : Int :=
  if 2 * toNat bs < 256 ^ bs.length then toNat bs else toNat bs - (256 ^ bs.length : Nat)

def exactInt? (width : Nat) (bs : Bytes) : Option Int :=
  if bs.length = width then some (toInt bs) else none

def exactNat? (width : Nat) (bs : Bytes) : Option Nat :=
  if bs.length = width then some (toNat bs) else none

def split? (n : Nat) (bs : Bytes) : Option (Bytes × Bytes) :=
  if n ≤ bs.length then some (bs.take n, bs.drop n) else none

def readInt? (width : Nat) (bs : Bytes) : Option (Int × Bytes) :=
  (split? width bs).map fun (head, rest) => (toInt head, rest)

def readNat? (width : Nat) (bs : Bytes) : Option (Nat × Bytes) :=
  (split? width bs).map fun (head, rest) => (toNat head, rest)

def ofText (t : Text) : Bytes := t.flatMap String.utf8EncodeChar

def toText? (bs : Bytes) : Option Text := (ByteArray.mk bs.toArray).utf8Decode?.map Array.toList

end Bytes
end TableGateway
