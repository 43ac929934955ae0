import TableGateway.ColumnList
import TableGateway.Proofs.Template

/-! Where the characters of composed texts come from. Trimming, listing and the cleaning of column lists write
nothing of their own but separators and the star. -/
namespace TableGateway
namespace Text

def isLetter (c : Char) : Bool := c.isAlpha || c = '_' || 127 < c.toNat

theorem between {low high : UInt32} {c : Char} (inside : low ≤ c.val ∧ c.val ≤ high) :
    low.toNat ≤ c.toNat ∧ c.toNat ≤ high.toNat :=
  ⟨UInt32.le_iff_toNat_le.mp inside.1, UInt32.le_iff_toNat_le.mp inside.2⟩

theorem digitWithin {c : Char} (digit : c.isDigit) : 48 ≤ c.toNat ∧ c.toNat ≤ 57 :=
  between ((Bool.and_eq_true_iff.mp digit).imp of_decide_eq_true of_decide_eq_true)

theorem alphaWithin {c : Char} (alpha : c.isAlpha) : 65 ≤ c.toNat ∧ c.toNat ≤ 90 ∨ 97 ≤ c.toNat ∧ c.toNat ≤ 122 := by
  obtain upper | lower := Bool.or_eq_true_iff.mp alpha
  · exact .inl (between (of_decide_eq_true upper))
  · exact .inr (between ((Bool.and_eq_true_iff.mp lower).imp of_decide_eq_true of_decide_eq_true))

theorem letterNotDigit {c : Char} (letter : isLetter c) : c.isDigit = false := by
  refine Bool.eq_false_iff.mpr fun digit => ?_
  have within := digitWithin digit
  simp only [isLetter, Bool.or_eq_true, decide_eq_true_eq] at letter
  obtain (alpha | rfl) | beyond := letter
  · have outside := alphaWithin alpha
    omega
  · exact absurd digit (by decide)
  · omega

def Identifier : Text → Bool
  | [] => false
  | c :: t => isLetter c && t.all fun d => isLetter d || d.isDigit

theorem Identifier.first {c : Char} {t : Text} (name : Identifier (c :: t)) : isLetter c :=
  (Bool.and_eq_true_iff.mp name).1

theorem Identifier.characters {t : Text} (name : Identifier t) : ∀ c ∈ t, isLetter c ∨ c.isDigit := by
  cases t with
  | nil => contradiction
  | cons c t =>
    have others := List.all_eq_true.mp (Bool.and_eq_true_iff.mp name).2
    exact List.forall_mem_cons.mpr
      ⟨.inl (Identifier.first name), fun d member => by simpa using others d member⟩

theorem Identifier.without {t : Text} (name : Identifier t) {c : Char} (letter : isLetter c = false)
    (digit : c.isDigit = false) : c ∉ t := fun member => by
  simpa [letter, digit] using Identifier.characters name c member

theorem memTrim {c : Char} {t : Text} (member : c ∈ trim t) : c ∈ t := by
  have kept : c ∈ (trimStart t).reverse := (List.dropWhile_suffix _).subset (List.mem_reverse.mp member)
  exact (List.dropWhile_suffix _).subset (List.mem_reverse.mp kept)

theorem memIntercalate {c : Char} {sep : Text} {ts : List Text} (member : c ∈ sep.intercalate ts) :
    c ∈ sep ∨ ∃ t ∈ ts, c ∈ t := by
  cases ts with
  | nil => simp at member
  | cons first rest =>
    rw [intercalateFlat] at member
    rcases List.mem_append.mp member with here | later
    · exact .inr ⟨first, List.mem_cons_self, here⟩
    · obtain ⟨t, inside, written⟩ := List.mem_flatMap.mp later
      rcases List.mem_append.mp written with between | own
      · exact .inl between
      · exact .inr ⟨t, List.mem_cons_of_mem _ inside, own⟩

theorem memJoined {c : Char} {t : Text} {ts : List Text} (inside : t ∈ ts) (own : c ∈ t) (sep : Text) :
    c ∈ sep.intercalate ts := by
  cases ts with
  | nil => cases inside
  | cons first rest =>
    rw [intercalateFlat]
    rcases List.mem_cons.mp inside with rfl | later
    · exact List.mem_append_left _ own
    · exact List.mem_append_right _ (List.mem_flatMap.mpr ⟨t, later, List.mem_append_right _ own⟩)

theorem memListed {c : Char} {ts : List Text} (member : c ∈ listed ts) :
    c = ',' ∨ c = ' ' ∨ ∃ t ∈ ts, c ∈ t := by
  rcases memIntercalate member with separator | own
  · simpa [or_assoc] using Or.inl separator
  · exact .inr (.inr own)

theorem memOfInt {c : Char} {n : Int} (member : c ∈ ofInt n) : c = '-' ∨ c.isDigit := by
  cases n with
  | ofNat n => exact .inr (ofNatDigits member)
  | negSucc n =>
    rcases List.mem_cons.mp member with sign | digit
    · exact .inl sign
    · exact .inr (ofNatDigits digit)

end Text

namespace ColumnList

theorem memSplit {c : Char} {t piece : Text} {depth : Nat} (member : piece ∈ split depth t)
    (inside : c ∈ piece) : c ∈ t := by
  induction t generalizing depth piece with
  | nil =>
    have same : piece = [] := by simpa [split] using member
    simp [same] at inside
  | cons d t ih =>
    simp only [split] at member
    by_cases cut : d = ',' ∧ depth = 0
    · rw [if_pos cut] at member
      rcases List.mem_cons.mp member with rfl | later
      · simp at inside
      · exact List.mem_cons_of_mem _ (ih later inside)
    · rw [if_neg cut] at member
      split at member
      · rename_i first others same
        rcases List.mem_cons.mp member with rfl | later
        · rcases List.mem_cons.mp inside with rfl | own
          · exact List.mem_cons_self
          · exact List.mem_cons_of_mem _ (ih (same ▸ List.mem_cons_self) own)
        · exact List.mem_cons_of_mem _ (ih (same ▸ List.mem_cons_of_mem _ later) inside)
      · have same : piece = [d] := by simpa using member
        have own : c = d := by simpa [same] using inside
        exact own ▸ List.mem_cons_self

theorem memSanitize {c : Char} {columns : Option Text} (member : c ∈ sanitize columns) :
    c = '*' ∨ c = ',' ∨ c = ' ' ∨ ∃ t ∈ columns, c ∈ t := by
  cases columns with
  | none => exact .inl (by simpa [sanitize] using member)
  | some t =>
    simp only [sanitize, Option.map_some] at member
    split at member
    · contradiction
    · exact .inl (by simpa using member)
    · rename_i names same
      cases same
      rcases Text.memListed member with separator | separator | ⟨name, kept, inside⟩
      · exact .inr (.inl separator)
      · exact .inr (.inr (.inl separator))
      · obtain ⟨piece, cut, rfl⟩ := List.mem_map.mp (List.mem_filter.mp kept).1
        exact .inr (.inr (.inr ⟨t, rfl, memSplit cut (Text.memTrim inside)⟩))

end ColumnList
end TableGateway
