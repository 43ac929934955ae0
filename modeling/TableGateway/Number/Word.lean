import TableGateway.Text

/-! Sums of 64-bit numbers. One that has more bits has no result, and the program stops there. -/
namespace TableGateway
namespace Word

def add? (m n : Nat) : Option Nat := if m + n < 2 ^ 64 then some (m + n) else none

theorem sumFits {m n : Nat} (fits : m + n < 2 ^ 64) : add? m n = some (m + n) := if_pos fits

theorem sumOverflows {m n : Nat} (excess : 2 ^ 64 ≤ m + n) : add? m n = none :=
  if_neg (Nat.not_lt.mpr excess)

theorem sumZero {m : Nat} (fits : m < 2 ^ 64) : add? m 0 = some m := sumFits fits

theorem sumAssoc (m n k : Nat) : add? (m + n) k = add? m (n + k) := by
  rw [add?, Nat.add_assoc]
  rfl

theorem sumIff {m n sum : Nat} : add? m n = some sum ↔ m + n = sum ∧ m + n < 2 ^ 64 := by
  rw [add?, Option.ite_none_right_eq_some, Option.some_inj]
  exact And.comm

end Word
end TableGateway
