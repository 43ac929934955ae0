import TableGateway.Text.Hex

/-! Universally unique identifiers: sixteen octets, written in five groups of hexadecimal digits. -/
namespace TableGateway

structure Uuid where
  octets : Bytes
  sixteen : octets.length = 16
  deriving DecidableEq, Repr

namespace Uuid

def ofBytes? (bs : Bytes) : Option Uuid := if h : bs.length = 16 then some ⟨bs, h⟩ else none

def print (u : Uuid) : Text :=
  let part (start count : Nat) : Text := Hex.ofBytes ((u.octets.drop start).take count)
  ['-'].intercalate [part 0 4, part 4 2, part 6 2, part 8 2, part 10 6]

def simple? (t : Text) : Option Uuid := (Hex.toBytes? t).bind ofBytes?

def grouped? (t : Text) : Option Uuid :=
  let hyphen (n : Nat) : Bool := t[n]? = some '-'
  if hyphen 8 && hyphen 13 && hyphen 18 && hyphen 23 then
    simple? (t.take 8 ++ (t.drop 9).take 4 ++ (t.drop 14).take 4 ++ (t.drop 19).take 4 ++ t.drop 24)
  else none

def read? (t : Text) : Option Uuid :=
  if t.length = 32 then simple? t
  else if t.length = 36 then grouped? t
  else if t.length = 38 ∧ t.head? = some '\x7b' ∧ t.getLast? = some '\x7d' then grouped? ((t.drop 1).take 36)
  else if t.length = 45 ∧ Text.lower (t.take 9) = "urn:uuid:".toList then grouped? (t.drop 9)
  else none

end Uuid
end TableGateway
