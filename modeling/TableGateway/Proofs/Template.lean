import TableGateway.Proofs.Scan
import TableGateway.WhereClause

/-! Statements as text with holes: words and holes in turn, parted by separators, so that no word can run
into a placeholder. Filling gives the holes consecutive numbers. The numbers read back from the text are those
that were given, and shifting the text is the same as filling from a later number. -/
namespace TableGateway
open Placeholder (Quiet numbers put shiftFrom)

theorem intercalateFlat {α : Type} (sep first : List α) (rest : List (List α)) :
    sep.intercalate (first :: rest) = first ++ rest.flatMap (sep ++ ·) := by
  induction rest generalizing first with
  | nil => simp
  | cons next rest ih => rw [List.intercalate_cons_cons, ih next]; simp

inductive Separator
  | space
  | comma
  | opening
  | closing
  deriving DecidableEq, Repr

def Separator.char : Separator → Char
  | .space => ' '
  | .comma => ','
  | .opening => '('
  | .closing => ')'

theorem Separator.charPlain (s : Separator) : s.char ≠ '\'' ∧ s.char ≠ '$' ∧ ¬ s.char.isDigit ∧
    Placeholder.isName s.char = false := by
  cases s <;> decide

def Parted (t : Text) : Prop := ∀ c ∈ t.head?, ∃ s : Separator, s.char = c

theorem Parted.nil : Parted [] := by simp [Parted]

theorem Parted.cons (s : Separator) (t : Text) : Parted (s.char :: t) := by simp [Parted]

theorem Parted.append {a b : Text} (first : Parted a) (second : Parted b) : Parted (a ++ b) := by
  cases a with
  | nil => exact second
  | cons c a => exact first

theorem Parted.stops {t : Text} (parted : Parted t) : ∀ c ∈ t.head?, ¬ c.isDigit := by
  intro c member
  obtain ⟨s, same⟩ := parted c member
  exact same ▸ s.charPlain.2.2.1

theorem Parted.shiftFrom {t : Text} (parted : Parted t) (offset : Nat) (inName : Bool) :
    shiftFrom offset inName t = shiftFrom offset false t := by
  cases t with
  | nil => simp only [Placeholder.shiftFromNil]
  | cons c t =>
    obtain ⟨s, same⟩ := parted c rfl
    obtain ⟨quote, dollar, -, -⟩ := s.charPlain
    rw [same] at quote dollar
    simp only [Placeholder.shiftFromPlain quote dollar]

inductive Atom
  | word (t : Text)
  | hole
  deriving DecidableEq, Repr

namespace Atom

def fill (start : Nat) : Atom → Text
  | .word t => t
  | .hole => Filter.placeholder start

def holes : Atom → Nat
  | .word _ => 0
  | .hole => 1

def words : Atom → List Text
  | .word t => [t]
  | .hole => []

theorem numbersFill {a : Atom} (dollarless : ∀ w ∈ a.words, '$' ∉ w) (start : Nat) {rest : Text}
    (parted : Parted rest) :
    numbers (a.fill start ++ rest) = (List.range' start a.holes).map Text.ofNat ++ numbers rest := by
  cases a with
  | word t => exact Placeholder.numbersCopied (dollarless t (List.mem_singleton_self t)) rest
  | hole => exact Placeholder.numbersPlaceholder parted.stops

theorem shiftFill {a : Atom} (quiet : ∀ w ∈ a.words, Quiet w) {start offset : Nat}
    (fits : start + a.holes + offset ≤ 2 ^ 64) (s : Separator) (rest : Text) :
    shiftFrom offset false (a.fill start ++ s.char :: rest) =
      put (a.fill (start + offset) ++ [s.char]) (shiftFrom offset false rest) := by
  obtain ⟨quote, dollar, digit, name⟩ := s.charPlain
  cases a with
  | word t =>
    simpa only [fill, name] using
      Placeholder.shiftFromQuiet (quiet t (List.mem_singleton_self t)) quote dollar offset false rest
  | hole =>
    have small : start + offset < 2 ^ 64 := by simp only [holes] at fits; omega
    have plain := Placeholder.shiftFromPlain quote dollar offset true rest
    simp only [fill, Filter.placeholder]
    rw [Placeholder.shiftFromPlaceholder small (by simpa using digit), plain, name, Placeholder.putPut]

theorem shiftFillLast {a : Atom} (quiet : ∀ w ∈ a.words, Quiet w) {start offset : Nat}
    (fits : start + a.holes + offset ≤ 2 ^ 64) :
    shiftFrom offset false (a.fill start) = some (a.fill (start + offset)) := by
  cases a with
  | word t => exact Placeholder.shiftFromDollarless offset false (quiet t (List.mem_singleton_self t)).1
  | hole =>
    have small : start + offset < 2 ^ 64 := by simp only [holes] at fits; omega
    have alone : shiftFrom offset false (Filter.placeholder start ++ []) =
        put (Filter.placeholder (start + offset)) (shiftFrom offset true []) :=
      Placeholder.shiftFromPlaceholder small (by simp)
    simpa only [fill, Placeholder.shiftFromNil, Placeholder.putSome, List.append_nil] using alone

end Atom

inductive Template
  | last (a : Atom)
  | next (a : Atom) (s : Separator) (rest : Template)
  deriving DecidableEq, Repr

namespace Template

def fill (start : Nat) : Template → Text
  | .last a => a.fill start
  | .next a s rest => a.fill start ++ s.char :: rest.fill (start + a.holes)

def holes : Template → Nat
  | .last a => a.holes
  | .next a _ rest => a.holes + rest.holes

def words : Template → List Text
  | .last a => a.words
  | .next a _ rest => a.words ++ rest.words

def join (t : Template) (s : Separator) (u : Template) : Template :=
  match t with
  | .last a => .next a s u
  | .next a r rest => .next a r (rest.join s u)

def spaced (ws : List Text) (t : Template) : Template := ws.foldr (fun w t => .next (.word w) .space t) t

def enclosed (t : Template) : Template := .next (.word []) .opening (t.join .closing (.last (.word [])))

def marks : Nat → Template
  | 0 => .last .hole
  | more + 1 => .next .hole .comma (.next (.word []) .space (marks more))

theorem fillJoin (t : Template) (s : Separator) (u : Template) (start : Nat) :
    (t.join s u).fill start = t.fill start ++ s.char :: u.fill (start + t.holes) := by
  induction t generalizing start with
  | last a => rfl
  | next a r rest ih => simp [join, fill, holes, ih, Nat.add_assoc]

theorem holesJoin (t : Template) (s : Separator) (u : Template) :
    (t.join s u).holes = t.holes + u.holes := by
  induction t with
  | last a => rfl
  | next a r rest ih => simp [join, holes, ih, Nat.add_assoc]

theorem wordsJoin (t : Template) (s : Separator) (u : Template) :
    (t.join s u).words = t.words ++ u.words := by
  induction t with
  | last a => rfl
  | next a r rest ih => simp [join, words, ih]

theorem fillHoleless {t : Template} (none : t.holes = 0) (start later : Nat) :
    t.fill start = t.fill later := by
  induction t generalizing start later with
  | last a => cases a <;> first | rfl | contradiction
  | next a s rest ih =>
    obtain ⟨here, after⟩ := Nat.add_eq_zero_iff.mp none
    have same : a.fill start = a.fill later := by cases a <;> first | rfl | contradiction
    rw [fill, fill, same, ih after (start + a.holes) (later + a.holes)]

theorem numbersFill {t : Template} (dollarless : ∀ w ∈ t.words, '$' ∉ w) (start : Nat) {rest : Text}
    (parted : Parted rest) :
    numbers (t.fill start ++ rest) = (List.range' start t.holes).map Text.ofNat ++ numbers rest := by
  induction t generalizing start with
  | last a => exact Atom.numbersFill dollarless start parted
  | next a s tail ih =>
    have here : ∀ w ∈ a.words, '$' ∉ w := fun w member => dollarless w (List.mem_append_left _ member)
    have later : ∀ w ∈ tail.words, '$' ∉ w := fun w member => dollarless w (List.mem_append_right _ member)
    have between : '$' ∉ [s.char] := by simpa using s.charPlain.2.1.symm
    have skipped := Placeholder.numbersCopied between (tail.fill (start + a.holes) ++ rest)
    rw [fill, List.append_assoc, List.cons_append, Atom.numbersFill here start (Parted.cons s _)]
    rw [List.singleton_append] at skipped
    rw [skipped, ih later, holes, ← List.range'_append_1, List.map_append, List.append_assoc]

theorem shiftFill {t : Template} (quiet : ∀ w ∈ t.words, Quiet w) {start offset : Nat}
    (fits : start + t.holes + offset ≤ 2 ^ 64) {rest : Text} (parted : Parted rest) :
    shiftFrom offset false (t.fill start ++ rest) =
      put (t.fill (start + offset)) (shiftFrom offset false rest) := by
  induction t generalizing start with
  | last a =>
    cases rest with
    | nil =>
      simpa only [fill, List.append_nil, Placeholder.shiftFromNil, Placeholder.putSome] using
        Atom.shiftFillLast quiet fits
    | cons c rest =>
      obtain ⟨s, rfl⟩ := parted c rfl
      obtain ⟨quote, dollar, -, name⟩ := s.charPlain
      rw [fill, Atom.shiftFill quiet fits, Placeholder.shiftFromPlain quote dollar, name, fill,
        Placeholder.putPut]
  | next a s tail ih =>
    have here : ∀ w ∈ a.words, Quiet w := fun w member => quiet w (List.mem_append_left _ member)
    have later : ∀ w ∈ tail.words, Quiet w := fun w member => quiet w (List.mem_append_right _ member)
    have first : start + a.holes + offset ≤ 2 ^ 64 := by simp only [holes] at fits; omega
    have others : start + a.holes + tail.holes + offset ≤ 2 ^ 64 := by simp only [holes] at fits; omega
    rw [fill, List.append_assoc, List.cons_append, Atom.shiftFill here first, ih later others,
      Placeholder.putPut, fill, List.append_assoc, List.singleton_append, Nat.add_right_comm]

theorem fillMarks (more start : Nat) :
    (marks more).fill start =
      Text.listed ((List.range (more + 1)).map fun i => Filter.placeholder (start + i)) := by
  induction more generalizing start with
  | zero => simp [marks, fill, Atom.fill, Text.listed]
  | succ more ih =>
    rw [List.range_succ_eq_map, List.map_cons, List.map_map, Text.listed, intercalateFlat]
    have tail := ih (start + 1)
    rw [List.range_succ_eq_map, List.map_cons, List.map_map, Text.listed, intercalateFlat] at tail
    simp only [marks, fill, Atom.fill, Atom.holes, tail, Separator.char]
    rw [List.range_succ_eq_map]
    simp [Function.comp_def, Nat.add_assoc, Nat.add_comm 1, List.flatMap_map]

theorem holesMarks (more : Nat) : (marks more).holes = more + 1 := by
  induction more with
  | zero => rfl
  | succ more ih => simp only [marks, holes, Atom.holes, ih]; omega

theorem wordsMarks (more : Nat) : ∀ w ∈ (marks more).words, w = [] := by
  induction more with
  | zero => simp [marks, words, Atom.words]
  | succ more ih => simpa [marks, words, Atom.words] using ih

theorem holesSpaced (ws : List Text) (t : Template) : (spaced ws t).holes = t.holes := by
  induction ws with
  | nil => rfl
  | cons w ws ih => simpa [spaced, holes, Atom.holes] using ih

theorem wordsSpaced (ws : List Text) (t : Template) : (spaced ws t).words = ws ++ t.words := by
  induction ws with
  | nil => rfl
  | cons w ws ih => simpa [spaced, words, Atom.words] using ih

theorem fillSpaced (w : Text) (ws : List Text) (t : Template) (start : Nat) :
    (spaced (w :: ws) t).fill start = w ++ ' ' :: (spaced ws t).fill start := by
  simp [spaced, fill, Atom.fill, Atom.holes, Separator.char]

theorem fillUnspaced (t : Template) (start : Nat) : (spaced [] t).fill start = t.fill start := rfl

theorem fillEnclosed (t : Template) (start : Nat) :
    (enclosed t).fill start = '(' :: t.fill start ++ [')'] := by
  simp [enclosed, fill, fillJoin, Atom.fill, Atom.holes, Separator.char]

theorem holesEnclosed (t : Template) : (enclosed t).holes = t.holes := by
  simp [enclosed, holes, holesJoin, Atom.holes]

theorem wordsEnclosed (t : Template) : (enclosed t).words = [] :: t.words ++ [[]] := by
  simp [enclosed, words, wordsJoin, Atom.words]

theorem everySpaced {P : Text → Prop} {ws : List Text} {t : Template} (first : ∀ w ∈ ws, P w)
    (others : ∀ w ∈ t.words, P w) : ∀ w ∈ (spaced ws t).words, P w := by
  rw [wordsSpaced]
  exact List.forall_mem_append.mpr ⟨first, others⟩

theorem everyEnclosed {P : Text → Prop} {t : Template} (none : P []) (inner : ∀ w ∈ t.words, P w) :
    ∀ w ∈ (enclosed t).words, P w := by
  rw [wordsEnclosed]
  exact List.forall_mem_append.mpr
    ⟨List.forall_mem_cons.mpr ⟨none, inner⟩, List.forall_mem_singleton.mpr none⟩

end Template
end TableGateway
