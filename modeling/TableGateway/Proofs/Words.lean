import TableGateway.Proofs.Template

/-! The words of a text with holes, which are what stands between its blanks. They are as many and in the same
order as it was put together from, and splitting the filled text gives them back. -/
namespace TableGateway

namespace Template

def parts (start : Nat) : Template → List Text
  | .last a => [a.fill start]
  | .next a .space rest => a.fill start :: rest.parts (start + a.holes)
  | .next a s rest => (rest.parts (start + a.holes)).modifyHead (a.fill start ++ s.char :: ·)

def closed (t : Template) : Template := t.join .closing (.last (.word []))

theorem partsGlued {s : Separator} (glue : s ≠ .space) (a : Atom) (rest : Template) (start : Nat) :
    (next a s rest).parts start =
      (rest.parts (start + a.holes)).modifyHead (a.fill start ++ s.char :: ·) := by
  cases s <;> first | rfl | contradiction

theorem partsNotEmpty (t : Template) (start : Nat) : t.parts start ≠ [] := by
  induction t generalizing start with
  | last a => exact List.cons_ne_nil _ _
  | next a s rest ih =>
    by_cases blank : s = .space
    · subst blank
      exact List.cons_ne_nil _ _
    · rw [partsGlued blank]
      obtain ⟨first, others, same⟩ := List.exists_cons_of_ne_nil (ih (start + a.holes))
      simp [same]

theorem partsSpaced (ws : List Text) (t : Template) (start : Nat) :
    (spaced ws t).parts start = ws ++ t.parts start := by
  induction ws with
  | nil => rfl
  | cons w ws ih => exact congrArg (w :: ·) ih

theorem partsJoin (t u : Template) (start : Nat) :
    (t.join .space u).parts start = t.parts start ++ u.parts (start + t.holes) := by
  induction t generalizing start with
  | last a => rfl
  | next a s rest ih =>
    have later := ih (start + a.holes)
    by_cases blank : s = .space
    · subst blank
      simp only [join, parts, holes, later, List.cons_append, Nat.add_assoc]
    · obtain ⟨first, others, same⟩ := List.exists_cons_of_ne_nil (partsNotEmpty rest (start + a.holes))
      simp only [join, partsGlued blank, holes, later, same, List.cons_append, List.modifyHead_cons,
        Nat.add_assoc]

theorem fillParts (t : Template) (start : Nat) : t.fill start = [' '].intercalate (t.parts start) := by
  induction t generalizing start with
  | last a => simp [fill, parts]
  | next a s rest ih =>
    obtain ⟨first, others, same⟩ := List.exists_cons_of_ne_nil (partsNotEmpty rest (start + a.holes))
    by_cases blank : s = .space
    · subst blank
      simp [fill, parts, ih, same, Separator.char]
    · rw [fill, ih, partsGlued blank, same, List.modifyHead_cons, intercalateFlat, intercalateFlat]
      simp

theorem unblankFill {a : Atom} (unblank : ∀ w ∈ a.words, ' ' ∉ w) (start : Nat) : ' ' ∉ a.fill start := by
  cases a with
  | word t => exact unblank t (List.mem_singleton_self t)
  | hole =>
    have digits : ' ' ∉ Text.ofNat start := fun member => absurd (Text.ofNatDigits member) (by decide)
    simpa [Atom.fill, Filter.placeholder] using digits

theorem unblankParts {t : Template} (unblank : ∀ w ∈ t.words, ' ' ∉ w) (start : Nat) :
    ∀ part ∈ t.parts start, ' ' ∉ part := by
  induction t generalizing start with
  | last a => exact List.forall_mem_singleton.mpr (unblankFill unblank start)
  | next a s rest ih =>
    have here := unblankFill (fun w member => unblank w (List.mem_append_left _ member)) start
    have later := ih (fun w member => unblank w (List.mem_append_right _ member)) (start + a.holes)
    by_cases blank : s = .space
    · subst blank
      exact List.forall_mem_cons.mpr ⟨here, later⟩
    · obtain ⟨first, others, same⟩ := List.exists_cons_of_ne_nil (partsNotEmpty rest (start + a.holes))
      rw [same] at later
      have between : ' ' ≠ s.char := by cases s <;> first | decide | contradiction
      obtain ⟨head, tail⟩ := List.forall_mem_cons.mp later
      rw [partsGlued blank, same, List.modifyHead_cons]
      exact List.forall_mem_cons.mpr ⟨by simp [here, between, head], tail⟩

theorem splitFill {t : Template} (unblank : ∀ w ∈ t.words, ' ' ∉ w) (start : Nat) :
    (t.fill start).splitOn ' ' = t.parts start := by
  rw [fillParts]
  exact List.splitOn_intercalate ' ' (unblankParts unblank start) (partsNotEmpty t start)

end Template
end TableGateway
