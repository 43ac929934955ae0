import TableGateway.Bytes

/-! Network addresses of versions 4 and 6 with a prefix length, which is written for networks and wherever
it does not cover the whole address. The first of the longest runs of zero segments is left out. -/
namespace TableGateway

inductive Host
  | v4 (octets : Bytes)
  | v6 (octets : Bytes)
  deriving DecidableEq, Repr

namespace Host

def bits : Host → Nat
  | .v4 _ => 32
  | .v6 _ => 128

def dotted (octets : Bytes) : Text := ['.'].intercalate (octets.map fun b => Text.ofNat b.toNat)

def segments : Bytes → List Nat
  | high :: low :: rest => (256 * high.toNat + low.toNat) :: segments rest
  | _ => []

def segmentText (n : Nat) : Text := Nat.toDigits 16 n

def joined (segments : List Nat) : Text := [':'].intercalate (segments.map segmentText)

def zeros (segments : List Nat) : Nat := (segments.takeWhile (· = 0)).length

def longestRun (segments : List Nat) : Nat × Nat :=
  (List.range segments.length).foldl
    (fun best start =>
      let length := zeros (segments.drop start)
      if best.2 < length then (start, length) else best)
    (0, 0)

def print : Host → Text
  | .v4 octets => dotted octets
  | .v6 octets =>
    if octets.take 12 = List.replicate 10 0 ++ [255, 255] then "::ffff:" ++ dotted (octets.drop 12)
    else
      let all := segments octets
      let (start, length) := longestRun all
      if 1 < length then joined (all.take start) ++ ':' :: ':' :: joined (all.drop (start + length))
      else joined all

end Host

structure NetAddress where
  host : Host
  bits : Nat
  network : Bool
  deriving DecidableEq, Repr

namespace NetAddress

def ofBytes? : Bytes → Option NetAddress
  | family :: bits :: network :: length :: octets =>
    if octets.length ≠ length.toNat then none
    else if family = 2 ∧ octets.length = 4 then some ⟨.v4 octets, bits.toNat, network ≠ 0⟩
    else if family = 3 ∧ octets.length = 16 then some ⟨.v6 octets, bits.toNat, network ≠ 0⟩
    else none
  | _ => none

def print (a : NetAddress) : Text :=
  a.host.print ++ if a.network ∨ a.bits ≠ a.host.bits then '/' :: Text.ofNat a.bits else []

end NetAddress
end TableGateway
