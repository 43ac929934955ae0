import Mathlib.Data.List.Induction
import TableGateway.Bytes
import TableGateway.Decimal.Wire

/-! What is written in bytes is read back: numbers within their width, text, and decimals on the wire. -/
namespace TableGateway
namespace Bytes

@[simp]
theorem lengthOfNat (width n : Nat) : (ofNat width n).length = width := by
  induction width generalizing n with
  | zero => rfl
  | succ width ih => simp [ofNat, ih]

theorem toNatSnoc (bs : Bytes) (b : UInt8) : toNat (bs ++ [b]) = 256 * toNat bs + b.toNat := by
  simp [toNat]

theorem toNatOfNat (width n : Nat) : toNat (ofNat width n) = n % 256 ^ width := by
  induction width generalizing n with
  | zero => simp [ofNat, toNat, Nat.mod_one]
  | succ width ih =>
    have last : (UInt8.ofNat n).toNat = n % 256 := UInt8.toNat_ofNat
    rw [ofNat, toNatSnoc, ih, last, Nat.pow_succ', Nat.mod_mul]
    omega

@[simp]
theorem lengthOfInt (width : Nat) (n : Int) : (ofInt width n).length = width := lengthOfNat _ _

theorem toIntOfInt {width : Nat} {n : Int} (low : -(256 ^ width : Nat) ≤ 2 * n)
    (high : 2 * n < (256 ^ width : Nat)) : toInt (ofInt width n) = n := by
  have positive : 0 < 256 ^ width := Nat.pow_pos (by decide)
  have written : toNat (ofInt width n) = (n % (256 ^ width : Nat)).toNat := by
    rw [ofInt, toNatOfNat, Nat.mod_eq_of_lt]
    have := Int.emod_lt_of_pos n (Int.natCast_pos.mpr positive)
    omega
  rw [toInt, written, lengthOfInt]
  generalize 256 ^ width = bound at *
  by_cases below : n < 0
  · have wrapped : n % (bound : Int) = n + bound := by
      rw [← Int.add_emod_right, Int.emod_eq_of_lt (by omega) (by omega)]
    rw [wrapped]
    split <;> omega
  · rw [Int.emod_eq_of_lt (by omega) (by omega)]
    split <;> omega

theorem exactIntOfInt {width : Nat} {n : Int} (low : -(256 ^ width : Nat) ≤ 2 * n)
    (high : 2 * n < (256 ^ width : Nat)) : exactInt? width (ofInt width n) = some n := by
  rw [exactInt?, if_pos (lengthOfInt width n), toIntOfInt low high]

theorem exactNatOfInt {width : Nat} {n : Int} (low : 0 ≤ n) (high : n < (256 ^ width : Nat)) :
    exactNat? width (ofInt width n) = some n.toNat := by
  rw [exactNat?, if_pos (lengthOfInt width n), ofInt, toNatOfNat, Int.emod_eq_of_lt low high,
    Nat.mod_eq_of_lt (by omega)]

theorem toNatLess (bs : Bytes) : toNat bs < 256 ^ bs.length := by
  induction bs using List.reverseRecOn with
  | nil => exact Nat.one_pos
  | append_singleton bs b ih =>
    have byte : b.toNat < 256 := b.toNat_lt
    rw [toNatSnoc, List.length_append, List.length_singleton, Nat.pow_succ]
    omega

theorem ofNatToNat (bs : Bytes) : ofNat bs.length (toNat bs) = bs := by
  induction bs using List.reverseRecOn with
  | nil => rfl
  | append_singleton bs b ih =>
    have byte : b.toNat < 256 := b.toNat_lt
    have front : toNat (bs ++ [b]) / 256 = toNat bs := by
      rw [toNatSnoc]
      omega
    have wrapped : (UInt8.ofNat (toNat (bs ++ [b]))).toNat = toNat (bs ++ [b]) % 256 := UInt8.toNat_ofNat
    have last : UInt8.ofNat (toNat (bs ++ [b])) = b := by
      apply UInt8.toNat_inj.mp
      rw [wrapped, toNatSnoc]
      omega
    rw [List.length_append, List.length_singleton, ofNat, front, last, ih]

theorem ofIntExact {width : Nat} {bs : Bytes} {n : Int} (read : exactInt? width bs = some n) :
    ofInt width n = bs := by
  rw [exactInt?] at read
  split at read
  case isFalse => cases read
  case isTrue length =>
    subst length
    obtain rfl := Option.some.inj read
    have small := toNatLess bs
    have unsigned : (toInt bs % (256 ^ bs.length : Nat)).toNat = toNat bs := by
      rw [toInt]
      split
      · rw [Int.emod_eq_of_lt (by omega) (by omega), Int.toNat_natCast]
      · rw [Int.sub_emod_right, Int.emod_eq_of_lt (by omega) (by omega), Int.toNat_natCast]
    rw [ofInt, unsigned, ofNatToNat]

theorem splitWritten {width : Nat} {bs : Bytes} (length : bs.length = width) (rest : Bytes) :
    split? width (bs ++ rest) = some (bs, rest) := by
  subst length
  simp [split?]

theorem readNatWritten {width n : Nat} (bound : n < 256 ^ width) (rest : Bytes) :
    readNat? width (ofNat width n ++ rest) = some (n, rest) := by
  simp only [readNat?, splitWritten (lengthOfNat width n), Option.map_some, toNatOfNat, Nat.mod_eq_of_lt bound]

theorem readIntWritten {width : Nat} {n : Int} (low : -(256 ^ width : Nat) ≤ 2 * n)
    (high : 2 * n < (256 ^ width : Nat)) (rest : Bytes) :
    readInt? width (ofInt width n ++ rest) = some (n, rest) := by
  simp only [readInt?, splitWritten (lengthOfInt width n), Option.map_some, toIntOfInt low high]

theorem toTextOfText (t : Text) : toText? (ofText t) = some t := by
  have encoded : ByteArray.mk (ofText t).toArray = t.utf8Encode := by
    apply ByteArray.ext
    apply Array.toList_inj.mp
    rw [List.utf8Encode, List.toList_data_toByteArray]
    rfl
  rw [toText?, encoded, List.utf8Decode?_utf8Encode]
  simp

end Bytes

namespace Numeric

structure Fits (n : Numeric) : Prop where
  count : n.groups.length < 256 ^ 2
  groups : ∀ group ∈ n.groups, group < 10000
  low : -(256 ^ 2 : Nat) ≤ 2 * n.weight
  high : 2 * n.weight < (256 ^ 2 : Nat)
  scale : n.scale < 256 ^ 2

theorem readGroupsWritten {groups : List Nat} (small : ∀ group ∈ groups, group < 10000) :
    readGroups? groups.length (groups.flatMap (Bytes.ofNat 2)) = some groups := by
  induction groups with
  | nil => rfl
  | cons group rest ih =>
    obtain ⟨first, others⟩ := List.forall_mem_cons.mp small
    simp [readGroups?, Bytes.readNatWritten (show group < 256 ^ 2 by omega), ih others]

theorem ofBytesToBytes {n : Numeric} (fits : n.Fits) : ofBytes? n.toBytes = some n := by
  obtain ⟨groups, weight, negative, scale⟩ := n
  obtain ⟨count, small, low, high, places⟩ := fits
  have sign : (if negative then 0x4000 else 0) < 256 ^ 2 := by split <;> decide
  simp only [ofBytes?, toBytes, List.append_assoc, Bytes.readNatWritten count, Bytes.readIntWritten low high,
    Bytes.readNatWritten sign, Bytes.readNatWritten places, readGroupsWritten small, Option.bind_eq_bind,
    Option.bind_some]
  cases negative <;> rfl

end Numeric
end TableGateway
