/-! Rounding of an exact quotient to a neighbouring whole number. -/
namespace TableGateway

inductive Tie
  | even
  | up
  deriving DecidableEq, Repr

def roundDiv (tie : Tie) (num den : Nat) : Nat :=
  let floor := num / den
  let rest := num % den
  if 2 * rest < den then floor
  else if den < 2 * rest then floor + 1
  else match tie with
    | .even => floor + floor % 2
    | .up => floor + 1

theorem roundDivOne (tie : Tie) (n : Nat) : roundDiv tie n 1 = n := by
  simp [roundDiv, Nat.mod_one]

end TableGateway
