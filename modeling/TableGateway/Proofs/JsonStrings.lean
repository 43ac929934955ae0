import TableGateway.Json.Printer
import TableGateway.Json.Reader

/-! A string that is printed with its quotation marks is read back, whatever characters it has. -/
namespace TableGateway

namespace Hex

theorem digitRead : ∀ n < 16, value? (digit n) = some n ∧ (digit n).utf8Size = 1 := by decide

theorem ofByteRead (b : UInt8) (rest : Text) : toBytes? (ofByte b ++ rest) = (toBytes? rest).map (b :: ·) := by
  obtain ⟨high, -⟩ := digitRead (b.toNat / 16) (by have := b.toNat_lt; omega)
  obtain ⟨low, -⟩ := digitRead (b.toNat % 16) (by omega)
  have whole : UInt8.ofNat (16 * (b.toNat / 16) + b.toNat % 16) = b := by
    rw [Nat.div_add_mod, UInt8.ofNat_toNat]
  simp only [ofByte, List.cons_append, List.nil_append, toBytes?, high, low, whole, Option.bind_eq_bind,
    Option.bind_some]
  cases toBytes? rest <;> rfl

end Hex

namespace Json
namespace Reader

theorem unitBytes (high low : UInt8) (rest : Text) :
    unit (Hex.ofByte high ++ (Hex.ofByte low ++ rest)) = .ok (256 * high.toNat + low.toNat, rest) := by
  have size (b : UInt8) : (Hex.digit (b.toNat / 16)).utf8Size = 1 ∧ (Hex.digit (b.toNat % 16)).utf8Size = 1 :=
    ⟨(Hex.digitRead _ (by have := b.toNat_lt; omega)).2, (Hex.digitRead _ (by omega)).2⟩
  have four : Text.bytes (Hex.ofByte high ++ Hex.ofByte low) = 4 := by
    simp [Hex.ofByte, Text.bytes, size]
  have read : Hex.toBytes? (Hex.ofByte high ++ Hex.ofByte low) = some [high, low] := by
    rw [Hex.ofByteRead, ← List.append_nil (Hex.ofByte low), Hex.ofByteRead]
    rfl
  have front : (Hex.ofByte high ++ (Hex.ofByte low ++ rest)).take 4 = Hex.ofByte high ++ Hex.ofByte low := rfl
  have behind : (Hex.ofByte high ++ (Hex.ofByte low ++ rest)).drop 4 = rest := rfl
  rw [unit, front, behind, if_neg (by omega)]
  simp only [read]

theorem escapedControl {c : Char} (control : c < ' ') (rest : Text) :
    escaped ('u' :: '0' :: '0' :: (Hex.ofByte c.toNat.toUInt8 ++ rest)) = .ok (c, rest) := by
  have small : c.toNat < 32 := control
  have byte : (c.toNat.toUInt8).toNat = c.toNat := UInt8.toNat_ofNat_of_lt (Nat.lt_trans small (by decide))
  have code : unit ('0' :: '0' :: (Hex.ofByte c.toNat.toUInt8 ++ rest)) = .ok (c.toNat, rest) := by
    have read := unitBytes 0 c.toNat.toUInt8 rest
    rwa [byte, UInt8.toNat_zero, Nat.mul_zero, Nat.zero_add] at read
  have low : isLow c.toNat = false := by
    simp [isLow]
    omega
  have high : isHigh c.toNat = false := by
    simp [isHigh]
    omega
  simp [escaped, code, bind, Except.bind, low, high, Char.ofNat_toNat]

theorem escapeRead (c : Char) :
    (∃ code, escape c = '\\' :: code ∧ ∀ rest, escaped (code ++ rest) = .ok (c, rest)) ∨
      escape c = [c] ∧ c ≠ '"' ∧ c ≠ '\\' ∧ ¬c < ' ' := by
  by_cases control : c < ' '
  · unfold escape
    split
    case h_8 =>
      rw [if_pos control]
      exact .inl ⟨_, rfl, escapedControl control⟩
    all_goals exact .inl ⟨_, rfl, fun rest => rfl⟩
  · unfold escape
    split
    case h_8 _ quote backslash _ _ _ _ _ =>
      rw [if_neg control]
      exact .inr ⟨rfl, quote, backslash, control⟩
    all_goals exact .inl ⟨_, rfl, fun rest => rfl⟩

theorem stringRead (s rest : Text) {fuel : Nat} (enough : s.length < fuel) :
    string fuel (s.flatMap escape ++ '"' :: rest) = .ok (s, rest) := by
  induction s generalizing fuel with
  | nil =>
    cases fuel with
    | zero => cases enough
    | succ fuel => simp [string]
  | cons c s ih =>
    cases fuel with
    | zero => cases enough
    | succ fuel =>
      have others : string fuel (s.flatMap escape ++ '"' :: rest) = .ok (s, rest) := ih (by simpa using enough)
      rw [List.flatMap_cons, List.append_assoc]
      rcases escapeRead c with ⟨code, spelled, read⟩ | ⟨spelled, quote, backslash, printed⟩
      · simp [spelled, string, read, others, bind, Except.bind]
      · simp [spelled, string, quote, backslash, printed, others, bind, Except.bind]

theorem escapeNonempty (c : Char) : 1 ≤ (escape c).length := by
  rcases escapeRead c with ⟨code, spelled, -⟩ | ⟨spelled, -⟩ <;> simp [spelled]

theorem escapedLength (s : Text) : s.length ≤ (s.flatMap escape).length := by
  induction s with
  | nil => exact Nat.le_refl 0
  | cons c s ih =>
    have := escapeNonempty c
    simp only [List.flatMap_cons, List.length_append, List.length_cons]
    omega

theorem quotedRead (s rest : Text) :
    string (s.flatMap escape ++ '"' :: rest).length (s.flatMap escape ++ '"' :: rest) = .ok (s, rest) := by
  have := escapedLength s
  exact stringRead s rest (by simp only [List.length_append, List.length_cons]; omega)

end Reader
end Json
end TableGateway
