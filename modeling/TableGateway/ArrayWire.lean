import TableGateway.Bytes

/-! Arrays on the wire: the number of dimensions, a flag for missing elements, the number of the element
type, length and lower bound of each dimension, and the elements with their lengths in front. -/
namespace TableGateway
namespace ArrayWire

def element : Option Bytes → Bytes
  | none => Bytes.ofInt 4 (-1)
  | some bs => Bytes.ofNat 4 bs.length ++ bs

def encode (elementType lower : Nat) (elements : List (Option Bytes)) : Bytes :=
  Bytes.ofNat 4 1 ++ Bytes.ofNat 4 (if elements.any Option.isNone then 1 else 0) ++
    Bytes.ofNat 4 elementType ++ Bytes.ofNat 4 elements.length ++ Bytes.ofNat 4 lower ++
    elements.flatMap element

def readElement? (bs : Bytes) : Option (Option Bytes × Bytes) := do
  let (length, bs) ← Bytes.readInt? 4 bs
  if length < 0 then some (none, bs)
  else
    let (element, rest) ← Bytes.split? length.toNat bs
    some (some element, rest)

def readElements? : (count : Nat) → Bytes → Option (List (Option Bytes))
  | 0, bs => if bs.isEmpty then some [] else none
  | count + 1, bs => do
    let (element, rest) ← readElement? bs
    let others ← readElements? count rest
    some (element :: others)

def decode? (bs : Bytes) : Option (List (Option Bytes)) := do
  let (dimensions, bs) ← Bytes.readInt? 4 bs
  let (_, bs) ← Bytes.readInt? 4 bs
  let (_, bs) ← Bytes.readNat? 4 bs
  if dimensions = 0 then readElements? 0 bs
  else if dimensions = 1 then
    let (length, bs) ← Bytes.readInt? 4 bs
    let (_, bs) ← Bytes.readInt? 4 bs
    if length < 0 then none else readElements? length.toNat bs
  else none

end ArrayWire
end TableGateway
