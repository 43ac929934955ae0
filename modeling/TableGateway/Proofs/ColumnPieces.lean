import Mathlib.Data.List.Infix
import TableGateway.Proofs.Characters
import TableGateway.Proofs.Trimming

/-! Column lists cut at the commas outside parentheses. The pieces put together are the list again; those kept name
plain columns, so that cleaning a list a second time changes nothing, and lists written one behind the other keep
what each of them keeps. -/
namespace TableGateway

theorem Text.listedCons {names : List Text} (named : names ≠ []) (name : Text) :
    listed (name :: names) = name ++ ',' :: ' ' :: listed names := by
  obtain ⟨next, rest, rfl⟩ := List.exists_cons_of_ne_nil named
  simp [listed, List.intercalate_cons_cons]

namespace ColumnList

def deeper (depth : Nat) (c : Char) : Nat :=
  if c = '(' then depth + 1 else if c = ')' then depth - 1 else depth

def depthBehind (depth : Nat) (t : Text) : Nat := t.foldl deeper depth

inductive Pieces : Nat → Text → List Text → Prop
  | last {depth : Nat} {t : Text} (within : ∀ a b, t = a ++ ',' :: b → depthBehind depth a ≠ 0) :
      Pieces depth t [t]
  | next {depth : Nat} {piece rest : Text} {pieces : List Text}
      (within : ∀ a b, piece = a ++ ',' :: b → depthBehind depth a ≠ 0) (outside : depthBehind depth piece = 0)
      (later : Pieces 0 rest pieces) : Pieces depth (piece ++ ',' :: rest) (piece :: pieces)

def Balanced (t : Text) : Prop := (∀ a, a <+: t → a.count ')' ≤ a.count '(') ∧ t.count '(' = t.count ')'

variable {t u : Text} {pieces : List Text} {depth : Nat}

theorem Pieces.filled (cut : Pieces depth t pieces) : pieces ≠ [] := by
  cases cut <;> simp

theorem Pieces.joined (cut : Pieces depth t pieces) : [','].intercalate pieces = t := by
  induction cut with
  | last within => simp
  | next within outside later ih =>
    obtain ⟨first, others, same⟩ := List.exists_cons_of_ne_nil later.filled
    subst same
    simp [List.intercalate_cons_cons, ih]

theorem Pieces.comma (cut : Pieces 0 t pieces) : Pieces 0 (',' :: t) ([] :: pieces) :=
  show Pieces 0 ([] ++ ',' :: t) _ from .next (by simp) rfl cut

theorem withinCons {c : Char} (uncut : ¬ (c = ',' ∧ depth = 0))
    (within : ∀ a b, t = a ++ ',' :: b → depthBehind (deeper depth c) a ≠ 0) :
    ∀ a b, c :: t = a ++ ',' :: b → depthBehind depth a ≠ 0 := by
  intro a b same
  cases a with
  | nil =>
    obtain ⟨rfl, -⟩ := List.cons.inj same
    exact fun zero => uncut ⟨rfl, zero⟩
  | cons d a =>
    obtain ⟨rfl, rest⟩ := List.cons.inj same
    exact within a b rest

theorem Pieces.cons {c : Char} {piece : Text} (uncut : ¬ (c = ',' ∧ depth = 0))
    (cut : Pieces (deeper depth c) t (piece :: pieces)) : Pieces depth (c :: t) ((c :: piece) :: pieces) := by
  cases cut with
  | last within => exact .last (withinCons uncut within)
  | next within outside later => exact .next (withinCons uncut within) outside later

theorem splitFilled (depth : Nat) (t : Text) : split depth t ≠ [] := by
  cases t with
  | nil => simp [split]
  | cons c t =>
    simp only [split]
    split
    · simp
    · split <;> simp

theorem splitCons {c : Char} (uncut : ¬ (c = ',' ∧ depth = 0)) (t : Text) :
    split depth (c :: t) = (split (deeper depth c) t).modifyHead (c :: ·) := by
  obtain ⟨piece, others, same⟩ := List.exists_cons_of_ne_nil (splitFilled (deeper depth c) t)
  have later : split (if c = '(' then depth + 1 else if c = ')' then depth - 1 else depth) t = piece :: others := same
  simp [split, if_neg uncut, later, same]

theorem splitPieces (depth : Nat) (t : Text) : Pieces depth t (split depth t) := by
  induction t generalizing depth with
  | nil => exact .last (by simp)
  | cons c t ih =>
    by_cases cut : c = ',' ∧ depth = 0
    · obtain ⟨rfl, rfl⟩ := cut
      exact (ih 0).comma
    · have later := ih (deeper depth c)
      obtain ⟨piece, others, same⟩ := List.exists_cons_of_ne_nil later.filled
      rw [splitCons cut, same]
      exact (same ▸ later).cons cut

theorem splitWhole (within : ∀ a b, t = a ++ ',' :: b → depthBehind depth a ≠ 0) : split depth t = [t] := by
  induction t generalizing depth with
  | nil => rfl
  | cons c t ih =>
    have uncut : ¬ (c = ',' ∧ depth = 0) := by
      rintro ⟨rfl, zero⟩
      exact within [] t rfl zero
    have later := ih fun a b same => within (c :: a) b (congrArg (c :: ·) same)
    rw [splitCons uncut, later]
    rfl

theorem splitAppend (outside : depthBehind depth t = 0) (u : Text) :
    split depth (t ++ ',' :: u) = split depth t ++ split 0 u := by
  induction t generalizing depth with
  | nil =>
    obtain rfl : depth = 0 := outside
    simp [split]
  | cons c t ih =>
    by_cases cut : c = ',' ∧ depth = 0
    · obtain ⟨rfl, rfl⟩ := cut
      have later := @ih 0 outside
      simp [split, later]
    · obtain ⟨piece, others, same⟩ := List.exists_cons_of_ne_nil (splitFilled (deeper depth c) t)
      rw [List.cons_append, splitCons cut, splitCons cut, ih outside, same]
      rfl

theorem Pieces.unique (cut : Pieces depth t pieces) : split depth t = pieces := by
  induction cut with
  | last within => exact splitWhole within
  | next within outside later ih => rw [splitAppend outside, splitWhole within, ih, List.singleton_append]

theorem keptAppend (outside : depthBehind 0 t = 0) (u : Text) : kept (t ++ ',' :: u) = kept t ++ kept u := by
  simp [kept, splitAppend outside]

theorem depthCounted (unclosed : ∀ a, a <+: t → a.count ')' ≤ depth + a.count '(') :
    depthBehind depth t + t.count ')' = depth + t.count '(' := by
  induction t generalizing depth with
  | nil => rfl
  | cons c t ih =>
    have front : ∀ a, a <+: t → (c :: a).count ')' ≤ depth + (c :: a).count '(' :=
      fun a within => unclosed _ (List.cons_prefix_cons.mpr ⟨rfl, within⟩)
    change depthBehind (deeper depth c) t + _ = _
    by_cases opening : c = '('
    · subst opening
      have later := @ih (depth + 1) fun a within => by
        have here := front a within
        simp at here
        omega
      simp [deeper]
      omega
    · by_cases closing : c = ')'
      · subst closing
        have one : 1 ≤ depth := by simpa using front [] List.nil_prefix
        have later := @ih (depth - 1) fun a within => by
          have here := front a within
          simp at here
          omega
        simp [deeper]
        omega
      · have later := @ih depth fun a within => by simpa [opening, closing] using front a within
        simpa [deeper, opening, closing] using later

theorem Balanced.outside (balanced : Balanced t) : depthBehind 0 t = 0 := by
  have counted := @depthCounted t 0 fun a front => by simpa using balanced.1 a front
  have same := balanced.2
  omega

structure Clean (name : Text) : Prop where
  filled : name ≠ []
  trimmed : Text.trim name = name
  comma : ',' ∉ name
  opening : '(' ∉ name
  closing : ')' ∉ name

theorem flatDepth (opening : '(' ∉ t) (closing : ')' ∉ t) (depth : Nat) : depthBehind depth t = depth := by
  induction t generalizing depth with
  | nil => rfl
  | cons c t ih =>
    simp only [List.mem_cons, not_or] at opening closing
    have same : deeper depth c = depth := by simp [deeper, Ne.symm opening.1, Ne.symm closing.1]
    change depthBehind (deeper depth c) t = depth
    rw [same]
    exact ih opening.2 closing.2 depth

theorem Pieces.within (cut : Pieces depth t pieces) (outer : depth = 0) :
    ∀ piece ∈ pieces, ∀ a b, piece = a ++ ',' :: b → depthBehind 0 a ≠ 0 := by
  induction cut with
  | last within =>
    subst outer
    exact List.forall_mem_singleton.mpr within
  | next within outside later ih =>
    subst outer
    exact List.forall_mem_cons.mpr ⟨within, ih rfl⟩

theorem commaless {piece : Text} (cut : piece ∈ split 0 t) (opening : '(' ∉ piece) (closing : ')' ∉ piece) :
    ',' ∉ piece := by
  intro comma
  obtain ⟨before, after, same⟩ := List.append_of_mem comma
  subst same
  simp only [List.mem_append, not_or] at opening closing
  exact (splitPieces 0 t).within rfl _ cut before after rfl (flatDepth opening.1 closing.1 0)

theorem keptClean (t : Text) : ∀ name ∈ kept t, Clean name := by
  intro name member
  obtain ⟨trimmed, plain⟩ := List.mem_filter.mp member
  obtain ⟨piece, cut, rfl⟩ := List.mem_map.mp trimmed
  obtain ⟨⟨filled, opening⟩, closing⟩ : (Text.trim piece ≠ [] ∧ '(' ∉ Text.trim piece) ∧ ')' ∉ Text.trim piece := by
    simpa [isPlain] using plain
  -- Trimming drops blanks only, so the whole piece is without parentheses.
  have outer : '(' ∉ piece ∧ ')' ∉ piece :=
    ⟨fun inside => opening (Text.solidTrim inside (by decide)),
      fun inside => closing (Text.solidTrim inside (by decide))⟩
  exact ⟨filled, Text.trimTwice piece, fun inside => commaless cut outer.1 outer.2 (Text.memTrim inside),
    opening, closing⟩

theorem keptBlank {c : Char} (blank : isBlank c) (t : Text) : kept (c :: t) = kept t := by
  have plain : c ≠ ',' ∧ c ≠ '(' ∧ c ≠ ')' := by
    refine ⟨?_, ?_, ?_⟩ <;> rintro rfl <;> exact absurd blank (by decide)
  have level : deeper 0 c = 0 := by simp [deeper, plain]
  obtain ⟨piece, others, same⟩ := List.exists_cons_of_ne_nil (splitFilled 0 t)
  have blanks : ∀ d ∈ [c], isBlank d := List.forall_mem_singleton.mpr blank
  have trimmed : Text.trim (c :: piece) = Text.trim piece := Text.trimBehind blanks piece
  simp [kept, @splitCons 0 c (fun cut => plain.1 cut.1), level, same, trimmed]

theorem keptName {name : Text} (clean : Clean name) : kept name = [name] := by
  have whole : split 0 name = [name] := splitWhole fun a b same _ => clean.comma (by simp [same])
  simp [kept, whole, clean.trimmed, isPlain, clean.filled, clean.opening, clean.closing]

theorem keptListed {names : List Text} (clean : ∀ name ∈ names, Clean name) (filled : names ≠ []) :
    kept (Text.listed names) = names := by
  induction names with
  | nil => contradiction
  | cons name rest ih =>
    obtain ⟨own, others⟩ := List.forall_mem_cons.mp clean
    cases rest with
    | nil => simpa [Text.listed] using keptName own
    | cons next rest =>
      have outside := flatDepth own.opening own.closing 0
      rw [Text.listedCons (by simp), keptAppend outside, keptBlank (by decide), keptName own, ih others (by simp)]
      rfl

theorem sanitizeTwice (columns : Option Text) : sanitize (some (sanitize columns)) = sanitize columns := by
  have star : sanitize (some "*") = "*".toList := by decide
  cases columns with
  | none => exact star
  | some t =>
    have clean := keptClean t
    simp only [sanitize, Option.map_some]
    cases names : kept t with
    | nil => exact star
    | cons name rest =>
      rw [names] at clean
      rw [keptListed clean (by simp)]

theorem outsideListed {c : Char} (other : c ≠ ',' ∧ c ≠ ' ') {names : List Text}
    (outside : ∀ name ∈ names, c ∉ name) : c ∉ Text.listed names := by
  intro member
  rcases Text.memListed member with comma | space | ⟨name, named, inside⟩
  · exact other.1 comma
  · exact other.2 space
  · exact outside name named inside

theorem sanitizeKept (t : Text) :
    sanitize (some t) = if kept t = [] then "*".toList else Text.listed (kept t) := by
  simp only [sanitize, Option.map_some]
  cases kept t <;> rfl

theorem sanitizeOutside {c : Char} (other : c ≠ ',' ∧ c ≠ ' ' ∧ c ≠ '*') (outside : ∀ name ∈ kept t, c ∉ name) :
    c ∉ sanitize (some t) := by
  rw [sanitizeKept]
  split
  · simpa using other.2.2
  · exact outsideListed ⟨other.1, other.2.1⟩ outside

theorem columnsOutsideParentheses (t : Text) :
    ∃ pieces, Pieces 0 t pieces ∧ (∀ others, Pieces 0 t others → others = pieces) ∧
      [','].intercalate pieces = t ∧
      let names := (pieces.map Text.trim).filter fun name => name ≠ [] ∧ '(' ∉ name ∧ ')' ∉ name
      kept t = names ∧ sanitize (some t) = (if names = [] then "*".toList else Text.listed names) ∧
      '(' ∉ sanitize (some t) ∧ ')' ∉ sanitize (some t) ∧
      sanitize (some (sanitize (some t))) = sanitize (some t) ∧
      (Balanced t → ∀ u, kept (t ++ ',' :: u) = kept t ++ kept u) := by
  refine ⟨split 0 t, splitPieces 0 t, fun others cut => cut.unique.symm, (splitPieces 0 t).joined, ?_⟩
  intro names
  have named : kept t = names := by
    refine List.filter_congr fun name _ => ?_
    cases name <;> simp [isPlain]
  have clean := keptClean t
  refine ⟨named, named ▸ sanitizeKept t, ?_, ?_, sanitizeTwice (some t), fun balanced => keptAppend balanced.outside⟩
  · exact sanitizeOutside (by decide) fun name member => (clean name member).opening
  · exact sanitizeOutside (by decide) fun name member => (clean name member).closing

theorem joinedOwnerKept :
    Balanced "id, owner:users(id, name)" ∧
      kept ("id, owner:users(id, name)".toList ++ ',' :: "title".toList) =
        kept "id, owner:users(id, name)" ++ kept "title" := by
  have balanced : Balanced "id, owner:users(id, name)" := by
    constructor
    · intro a front
      rw [← List.mem_inits] at front
      revert a
      decide
    · decide
  obtain ⟨pieces, -, -, -, -, -, -, -, -, appended⟩ := columnsOutsideParentheses "id, owner:users(id, name)"
  exact ⟨balanced, appended balanced "title"⟩

end ColumnList
end TableGateway
