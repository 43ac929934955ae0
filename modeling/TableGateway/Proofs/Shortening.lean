import TableGateway.Event
import TableGateway.Proofs.Cursor

/-! Long statements in the log. What stays of one is the longest beginning of at most 200 bytes, found by going back
from there to the end of a character. The way back takes at most three steps, since no character has more than four
bytes, and the cut is never inside one. -/
namespace TableGateway

namespace Text

structure Fills (limit : Nat) (front t : Text) : Prop where
  begins : front <+: t
  within : bytes front ≤ limit
  longest : ∀ other, other <+: t → bytes other ≤ limit → other <+: front

theorem bytesLength (t : Text) : bytes t = (Bytes.ofText t).length := by
  have counted (n : Nat) : t.foldl (fun n c => n + c.utf8Size) n = n + (Bytes.ofText t).length := by
    induction t generalizing n with
    | nil => rfl
    | cons c t ih =>
      rw [List.foldl_cons, ih, Bytes.ofTextCons, List.length_append, String.length_utf8EncodeChar, Nat.add_assoc]
  rw [bytes, counted, Nat.zero_add]

theorem bytesCons (c : Char) (t : Text) : bytes (c :: t) = c.utf8Size + bytes t := by
  rw [bytesLength, bytesLength, Bytes.ofTextCons, List.length_append, String.length_utf8EncodeChar]

end Text

namespace Cursor
open Bytes (ofText)

def retreat (bs : Bytes) : Nat → Nat
  | 0 => 0
  | place + 1 => if isBoundary bs (place + 1) then place + 1 else retreat bs place

def shorten (bs : Bytes) : Except Stop Bytes :=
  if bs.length ≤ 200 then .ok bs
  else do
    let front ← slice bs 0 (retreat bs 200)
    .ok (front ++ ofText "...")

theorem boundaryStart (bs : Bytes) : isBoundary bs 0 := by
  cases bs <;> rfl

theorem boundaryInside {c : Char} {t : Text} {place : Nat} (inside : place < c.utf8Size)
    (boundary : isBoundary (ofText (c :: t)) place) : place = 0 := by
  by_contra moved
  have there : place < (String.utf8EncodeChar c).length := by rwa [String.length_utf8EncodeChar]
  have byte : (ofText (c :: t))[place]? = some (String.utf8EncodeChar c)[place] := by
    rw [Bytes.ofTextCons, List.getElem?_append_left there, List.getElem?_eq_getElem there]
  have beyond : 127 < c.toNat := by
    by_contra small
    have single := Bytes.narrow (Nat.not_lt.mp small)
    simp only [single, List.length_singleton] at there
    omega
  obtain ⟨first, others, same, -, rest⟩ := Bytes.wide beyond
  obtain ⟨before, rfl⟩ := Nat.exists_eq_succ_of_ne_zero moved
  have member : (String.utf8EncodeChar c)[before + 1] ∈ others := by
    simp only [same, List.getElem_cons_succ]
    exact List.getElem_mem _
  simp [isBoundary, byte, rest _ member] at boundary

theorem boundaryBehind {c : Char} {t : Text} {place : Nat}
    (boundary : isBoundary (ofText (c :: t)) (c.utf8Size + place)) : isBoundary (ofText t) place := by
  have positive := c.utf8Size_pos
  have here : (ofText (c :: t))[c.utf8Size + place]? = (ofText t)[place]? := by
    rw [Bytes.ofTextCons, List.getElem?_append_right (by simp), String.length_utf8EncodeChar, Nat.add_sub_cancel_left]
  rw [isBoundary, here] at boundary
  rw [isBoundary]
  cases byte : (ofText t)[place]? with
  | some b =>
    have moved : c.utf8Size + place ≠ 0 := by omega
    have begins : Bytes.isContinuation b = false := by simpa only [byte, moved, decide_false, Bool.false_or,
      Bool.not_eq_true'] using boundary
    simp [begins]
  | none => simpa [byte, Bytes.ofTextCons] using boundary

theorem boundaryIff {t : Text} {place : Nat} :
    isBoundary (ofText t) place ↔ ∃ front, front <+: t ∧ Text.bytes front = place := by
  constructor
  · intro boundary
    induction t generalizing place with
    | nil =>
      have zero : place = 0 := of_decide_eq_true boundary
      exact ⟨[], List.prefix_rfl, zero.symm⟩
    | cons c t ih =>
      by_cases inside : place < c.utf8Size
      · exact ⟨[], List.nil_prefix, (boundaryInside inside boundary).symm⟩
      · obtain ⟨left, rfl⟩ := Nat.exists_eq_add_of_le (Nat.not_lt.mp inside)
        obtain ⟨front, begins, rfl⟩ := ih (boundaryBehind boundary)
        exact ⟨c :: front, (List.prefix_cons_inj c).mpr begins, Text.bytesCons c front⟩
  · rintro ⟨front, ⟨rest, rfl⟩, rfl⟩
    rw [Text.bytesLength]
    exact boundaryText front rest

theorem retreatBoundary (bs : Bytes) (limit : Nat) : isBoundary bs (retreat bs limit) := by
  induction limit with
  | zero => exact boundaryStart bs
  | succ limit ih =>
    rw [retreat]
    split
    · assumption
    · exact ih

theorem retreatWithin (bs : Bytes) (limit : Nat) : retreat bs limit ≤ limit := by
  induction limit with
  | zero => exact Nat.le_refl 0
  | succ limit ih =>
    rw [retreat]
    split
    · exact Nat.le_refl _
    · exact Nat.le_succ_of_le ih

theorem retreatLast {bs : Bytes} {place limit : Nat} (boundary : isBoundary bs place) (within : place ≤ limit) :
    place ≤ retreat bs limit := by
  induction limit with
  | zero => exact within
  | succ limit ih =>
    rw [retreat]
    split
    · exact within
    · rename_i inside
      have other : place ≠ limit + 1 := fun same => inside (same ▸ boundary)
      exact ih (by omega)

end Cursor

namespace Event
open Text (Fills bytes)

theorem cutFills (limit : Nat) (t : Text) : Fills limit (cut limit t) t := by
  induction t generalizing limit with
  | nil => exact ⟨List.prefix_rfl, Nat.zero_le _, fun other begins _ => begins⟩
  | cons c t ih =>
    by_cases fits : c.utf8Size ≤ limit
    · have rest := ih (limit - c.utf8Size)
      rw [cut, if_pos fits]
      refine ⟨(List.prefix_cons_inj c).mpr rest.begins, ?_, fun other begins within => ?_⟩
      · have within := rest.within
        rw [Text.bytesCons]
        omega
      · rcases List.prefix_cons_iff.mp begins with rfl | ⟨other, rfl, behind⟩
        · exact List.nil_prefix
        · rw [Text.bytesCons] at within
          exact (List.prefix_cons_inj c).mpr (rest.longest other behind (by omega))
    · rw [cut, if_neg fits]
      refine ⟨List.nil_prefix, Nat.zero_le _, fun other begins within => ?_⟩
      rcases List.prefix_cons_iff.mp begins with rfl | ⟨other, rfl, -⟩
      · exact List.prefix_rfl
      · rw [Text.bytesCons] at within
        omega

theorem cutWide {limit : Nat} {t : Text} (long : limit < bytes t) : limit < bytes (cut limit t) + 4 := by
  induction t generalizing limit with
  | nil => exact absurd long (Nat.not_lt_zero limit)
  | cons c t ih =>
    have size := c.utf8Size_le_four
    rw [Text.bytesCons] at long
    rw [cut]
    split
    · have rest := @ih (limit - c.utf8Size) (by omega)
      rw [Text.bytesCons]
      omega
    · omega

theorem retreatCut (limit : Nat) (t : Text) : Cursor.retreat (Bytes.ofText t) limit = bytes (cut limit t) := by
  have fills := cutFills limit t
  apply Nat.le_antisymm
  -- the end found is the end of some beginning, which is no longer than the longest
  · obtain ⟨front, begins, same⟩ := Cursor.boundaryIff.mp (Cursor.retreatBoundary (Bytes.ofText t) limit)
    have within := fills.longest front begins (same ▸ Cursor.retreatWithin (Bytes.ofText t) limit)
    obtain ⟨more, whole⟩ := within
    rw [← same, ← whole, Text.bytesLength, Text.bytesLength, Bytes.ofTextAppend, List.length_append]
    omega
  · exact Cursor.retreatLast (Cursor.boundaryIff.mpr ⟨_, fills.begins, rfl⟩) fills.within

theorem statementsShortened (sql : Text) :
    Cursor.shorten (Bytes.ofText sql) = .ok (Bytes.ofText (shortened sql)) ∧
    if bytes sql ≤ 200 then shortened sql = sql
    else ∃ front, shortened sql = front ++ "...".toList ∧ Fills 200 front sql ∧ 197 ≤ bytes front ∧
      Cursor.retreat (Bytes.ofText sql) 200 = bytes front ∧
      ∀ place ≤ 200, Cursor.isBoundary (Bytes.ofText sql) place → place ≤ bytes front := by
  have length := Text.bytesLength sql
  by_cases short : bytes sql ≤ 200
  · rw [shortened, if_pos short, if_pos short, Cursor.shorten, if_pos (length ▸ short)]
    exact ⟨rfl, rfl⟩
  · have fills := cutFills 200 sql
    have wide := cutWide (Nat.not_le.mp short)
    have back := retreatCut 200 sql
    have sliced : Cursor.slice (Bytes.ofText sql) 0 (bytes (cut 200 sql)) = .ok (Bytes.ofText (cut 200 sql)) := by
      obtain ⟨rest, whole⟩ := fills.begins
      have passed := Cursor.sliceText [] (cut 200 sql) rest
      rw [List.nil_append, whole, ← Text.bytesLength (cut 200 sql)] at passed
      exact passed
    rw [shortened, if_neg short, if_neg short, Cursor.shorten, if_neg (length ▸ short), back, sliced]
    refine ⟨?_, cut 200 sql, rfl, fills, by omega, rfl, fun place within boundary => ?_⟩
    · rw [Bytes.ofTextAppend]
      rfl
    · exact back ▸ Cursor.retreatLast boundary within

theorem wideCharacterLeftOut :
    let front := List.replicate 197 'a'
    let sql := front ++ ['😀', ';']
    ¬ bytes sql ≤ 200 ∧ Fills 200 front sql ∧ shortened sql = front ++ "...".toList := by
  intro front sql
  have long : ¬ bytes sql ≤ 200 := by decide +kernel
  have stays : shortened sql = front ++ "...".toList := by decide +kernel
  clear_value sql
  obtain ⟨-, kept⟩ := statementsShortened sql
  rw [if_neg long] at kept
  obtain ⟨found, written, fills, -⟩ := kept
  obtain rfl : front = found := List.append_cancel_right (stays.symm.trans written)
  exact ⟨long, fills, stays⟩

end Event
end TableGateway
