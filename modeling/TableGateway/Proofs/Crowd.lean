import Mathlib.Logic.Function.Basic

/-! Any number of parties who work on what they share, each turn of one of them at a time and in any order. -/
namespace TableGateway

structure Crowd (S T : Type) where
  shared : S
  turns : Nat → T

namespace Crowd

variable {S T : Type} (turn : Nat → T → S → T × S)

def move (c : Crowd S T) (i : Nat) : Crowd S T :=
  let (t, s) := turn i (c.turns i) c.shared
  ⟨s, Function.update c.turns i t⟩

def moves (c : Crowd S T) (order : List Nat) : Crowd S T := order.foldl (move turn) c

theorem moveMover (c : Crowd S T) (i : Nat) : (c.move turn i).turns i = (turn i (c.turns i) c.shared).1 ∧
    (c.move turn i).shared = (turn i (c.turns i) c.shared).2 :=
  ⟨Function.update_self _ _ _, rfl⟩

theorem moveOther (c : Crowd S T) {i j : Nat} (other : j ≠ i) : (c.move turn i).turns j = c.turns j :=
  Function.update_of_ne other _ _

theorem movesKeep (kept : Crowd S T → Prop) (step : ∀ c i, kept c → kept (c.move turn i)) {c : Crowd S T}
    (start : kept c) (order : List Nat) : kept (c.moves turn order) := by
  induction order generalizing c with
  | nil => exact start
  | cons i rest ih => exact ih (step c i start)

theorem movesNear (left : T → Nat) {i : Nat} (nearer : ∀ t s, left (turn i t s).1 ≤ left t - 1) (c : Crowd S T)
    (order : List Nat) : left ((c.moves turn order).turns i) ≤ left (c.turns i) - order.count i := by
  induction order generalizing c with
  | nil => exact Nat.le_refl _
  | cons n rest ih =>
    refine Nat.le_trans (ih (c.move turn n)) ?_
    by_cases same : i = n
    · subst same
      have fewer := nearer (c.turns i) c.shared
      rw [← (c.moveMover turn i).1] at fewer
      rw [List.count_cons_self]
      omega
    · have uncounted : (n :: rest).count i = rest.count i := List.count_cons_of_ne fun equal => same equal.symm
      exact Nat.le_of_eq (by rw [c.moveOther _ same, uncounted])

end Crowd
end TableGateway
