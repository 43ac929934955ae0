import Mathlib.Data.List.DropRight
import TableGateway.Text.Blank

/-! What trimming leaves: nothing of a text of blanks, and of any other text what begins and ends with characters
that are no blanks. Blanks written around a text are dropped again. -/
namespace TableGateway
namespace Text

theorem trimStartSplit (t : Text) : ∃ blanks, t = blanks ++ trimStart t ∧ ∀ c ∈ blanks, isBlank c :=
  ⟨t.takeWhile isBlank, List.takeWhile_append_dropWhile.symm, fun _ member => List.mem_takeWhile_imp member⟩

theorem trimEndSplit (t : Text) : ∃ blanks, t = trimEnd t ++ blanks ∧ ∀ c ∈ blanks, isBlank c := by
  obtain ⟨blanks, split, blank⟩ := trimStartSplit t.reverse
  refine ⟨blanks.reverse, ?_, fun c member => blank c (List.mem_reverse.mp member)⟩
  simpa [trimStart, trimEnd] using congrArg List.reverse split

theorem trimSplit (t : Text) : ∃ before after, t = before ++ (trim t ++ after) ∧ (∀ c ∈ before, isBlank c) ∧
    ∀ c ∈ after, isBlank c := by
  obtain ⟨before, front, blankBefore⟩ := trimStartSplit t
  obtain ⟨after, back, blankAfter⟩ := trimEndSplit (trimStart t)
  refine ⟨before, after, ?_, blankBefore, blankAfter⟩
  rw [trim, ← back, ← front]

theorem trimStartFirst (t : Text) : ∀ c ∈ (trimStart t).head?, ¬ isBlank c := by
  induction t with
  | nil => simp [trimStart]
  | cons d t ih => by_cases blank : isBlank d <;> simp_all [trimStart]

theorem trimFirst (t : Text) : ∀ c ∈ (trim t).head?, ¬ isBlank c := by
  intro c member
  have front : trim t <+: trimStart t := List.rdropWhile_prefix isBlank (trimStart t)
  obtain ⟨rest, same⟩ := List.head?_eq_some_iff.mp member
  obtain ⟨behind, whole⟩ := front
  exact trimStartFirst t c (by simp [← whole, same])

theorem trimLast (t : Text) : ∀ c ∈ (trim t).getLast?, ¬ isBlank c := by
  intro c member
  obtain ⟨filled, rfl⟩ := List.mem_getLast?_eq_getLast member
  exact List.rdropWhile_last_not isBlank (trimStart t) filled

theorem trimEmpty (t : Text) : trim t = [] ↔ ∀ c ∈ t, isBlank c := by
  have back : trim t = [] ↔ ∀ c ∈ trimStart t, isBlank c := List.rdropWhile_eq_nil_iff
  rw [back]
  constructor
  · intro blank
    have none : trimStart t = [] := by
      cases same : trimStart t with
      | nil => rfl
      | cons c rest =>
        rw [same] at blank
        exact absurd (blank c List.mem_cons_self) (trimStartFirst t c (by simp [same]))
    exact List.dropWhile_eq_nil_iff.mp none
  · exact fun blank c member => blank c ((List.dropWhile_suffix isBlank).subset member)

theorem trimKeeps {t : Text} (first : ∀ c ∈ t.head?, ¬ isBlank c) (last : ∀ c ∈ t.getLast?, ¬ isBlank c) :
    trim t = t := by
  have front : trimStart t = t := by
    cases t with
    | nil => rfl
    | cons c t => exact List.dropWhile_cons_of_neg (first c rfl)
  have back : trimEnd t = t :=
    List.rdropWhile_eq_self_iff.mpr fun filled => last _ (List.getLast?_eq_some_getLast filled)
  rw [trim, front, back]

theorem trimTwice (t : Text) : trim (trim t) = trim t := trimKeeps (trimFirst t) (trimLast t)

variable {blanks : Text}

theorem trimBehind (blank : ∀ c ∈ blanks, isBlank c) (t : Text) : trim (blanks ++ t) = trim t := by
  rw [trim, trimStart, List.dropWhile_append_of_pos blank]
  rfl

theorem trimEndBefore (blank : ∀ c ∈ blanks, isBlank c) (t : Text) : trimEnd (t ++ blanks) = trimEnd t := by
  have reversed : ∀ c ∈ blanks.reverse, isBlank c := by simpa using blank
  rw [trimEnd, List.reverse_append, List.dropWhile_append_of_pos reversed]
  rfl

theorem trimBefore (blank : ∀ c ∈ blanks, isBlank c) (t : Text) : trim (t ++ blanks) = trim t := by
  have dropped : blanks.dropWhile isBlank = [] := List.dropWhile_eq_nil_iff.mpr blank
  rw [trim, trim, trimStart, trimStart, List.dropWhile_append, dropped]
  split
  · rename_i none
    rw [List.isEmpty_iff.mp none]
  · exact trimEndBefore blank _

theorem solidTrim {t : Text} {c : Char} (member : c ∈ t) (solid : ¬ isBlank c) : c ∈ trim t := by
  have kept : ∀ u : Text, c ∈ u → c ∈ u.dropWhile isBlank := by
    intro u inside
    rw [← List.takeWhile_append_dropWhile (p := isBlank) (l := u)] at inside
    rcases List.mem_append.mp inside with dropped | kept
    · exact absurd (List.mem_takeWhile_imp dropped) solid
    · exact kept
  exact List.mem_reverse.mpr (kept _ (List.mem_reverse.mpr (kept t member)))

end Text
end TableGateway
