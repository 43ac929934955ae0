import TableGateway.Proofs.DateColumns
import TableGateway.Value.Sources

/-! Moments, dates and identifiers are carried as text and read again when they are bound. Their text says all that
the wire has room for, so that the bytes sent are those of the thing itself. -/
namespace TableGateway

namespace Hex

theorem valueDigit : ∀ n < 16, value? (digit n) = some n := by decide

theorem digitSolid : ∀ n < 16, ¬isBlank (digit n) := by decide

@[simp]
theorem lengthOfBytes (bs : Bytes) : (ofBytes bs).length = 2 * bs.length := by
  induction bs with
  | nil => rfl
  | cons b bs ih =>
    simp only [ofBytes, ofByte, List.flatMap_cons, List.length_append, List.length_cons, List.length_nil] at ih ⊢
    omega

theorem ofBytesAppend (front back : Bytes) : ofBytes (front ++ back) = ofBytes front ++ ofBytes back :=
  List.flatMap_append

theorem ofBytesSolid (bs : Bytes) : ∀ c ∈ ofBytes bs, ¬isBlank c := by
  intro c member
  obtain ⟨b, -, digit⟩ := List.mem_flatMap.mp member
  have byte : b.toNat < 256 := b.toNat_lt
  simp only [ofByte, List.mem_cons, List.not_mem_nil, or_false] at digit
  rcases digit with rfl | rfl
  · exact digitSolid _ (by omega)
  · exact digitSolid _ (by omega)

theorem toBytesOfBytes (bs : Bytes) : toBytes? (ofBytes bs) = some bs := by
  induction bs with
  | nil => rfl
  | cons b bs ih =>
    have byte : b.toNat < 256 := b.toNat_lt
    have high := valueDigit (b.toNat / 16) (by omega)
    have low := valueDigit (b.toNat % 16) (by omega)
    have whole : UInt8.ofNat (16 * (b.toNat / 16) + b.toNat % 16) = b := by
      rw [Nat.div_add_mod, UInt8.ofNat_toNat]
    have rest : toBytes? (bs.flatMap ofByte) = some bs := ih
    simp only [ofBytes, ofByte, List.flatMap_cons, List.cons_append, List.nil_append, toBytes?, high, low, rest,
      Option.bind_eq_bind, Option.bind_some, whole]

end Hex

namespace Uuid

section
variable {part : Text} {n : Nat} (length : part.length = n) (rest : Text)

include length

theorem takePart : (part ++ '-' :: rest).take n = part := List.take_left' length

theorem hyphenBehind : (part ++ '-' :: rest)[n]? = some '-' := by
  subst length
  simp

theorem dropPart : (part ++ '-' :: rest).drop (n + 1) = rest := by
  subst length
  simp

end

def part (u : Uuid) (start count : Nat) : Text := Hex.ofBytes ((u.octets.drop start).take count)

theorem printParts (u : Uuid) : u.print =
    u.part 0 4 ++ '-' :: (u.part 4 2 ++ '-' :: (u.part 6 2 ++ '-' :: (u.part 8 2 ++ '-' :: u.part 10 6))) := by
  simp [print, part]

theorem partLength (u : Uuid) {start count : Nat} (within : start + count ≤ 16) :
    (u.part start count).length = 2 * count := by
  have sixteen := u.sixteen
  simp [part]
  omega

theorem partsJoined (u : Uuid) :
    u.part 0 4 ++ u.part 4 2 ++ u.part 6 2 ++ u.part 8 2 ++ u.part 10 6 = Hex.ofBytes u.octets := by
  have next (start count : Nat) :
      u.octets.drop start = (u.octets.drop start).take count ++ u.octets.drop (start + count) := by
    rw [← List.drop_drop, List.take_append_drop]
  have last : u.octets.drop 16 = [] := List.drop_eq_nil_of_le (Nat.le_of_eq u.sixteen)
  simp only [part, ← Hex.ofBytesAppend]
  conv_rhs => rw [← List.drop_zero (l := u.octets), next 0 4, next 4 2, next 6 2, next 8 2, next 10 6, last]
  simp only [List.append_assoc, List.append_nil]

theorem printSolid (u : Uuid) : ∀ c ∈ u.print, ¬isBlank c := by
  have hyphen : ¬isBlank '-' := by decide
  have solid (start count : Nat) : ∀ c ∈ u.part start count, ¬isBlank c := Hex.ofBytesSolid _
  simp only [printParts, List.forall_mem_append, List.forall_mem_cons]
  exact ⟨solid 0 4, hyphen, solid 4 2, hyphen, solid 6 2, hyphen, solid 8 2, hyphen, solid 10 6⟩

theorem groupedRead {a b c d e : Text} (first : a.length = 8) (second : b.length = 4) (third : c.length = 4)
    (fourth : d.length = 4) :
    grouped? (a ++ '-' :: (b ++ '-' :: (c ++ '-' :: (d ++ '-' :: e)))) = simple? (a ++ b ++ c ++ d ++ e) := by
  generalize whole : a ++ '-' :: (b ++ '-' :: (c ++ '-' :: (d ++ '-' :: e))) = t
  -- Behind each group the text goes on as the groups that follow.
  have behindFirst : t.drop 9 = b ++ '-' :: (c ++ '-' :: (d ++ '-' :: e)) := by
    rw [← whole, dropPart first]
  have behindSecond : t.drop 14 = c ++ '-' :: (d ++ '-' :: e) := by
    rw [← dropPart second (c ++ '-' :: (d ++ '-' :: e)), ← behindFirst, List.drop_drop]
  have behindThird : t.drop 19 = d ++ '-' :: e := by
    rw [← dropPart third (d ++ '-' :: e), ← behindSecond, List.drop_drop]
  have behindFourth : t.drop 24 = e := by
    rw [← dropPart fourth e, ← behindThird, List.drop_drop]
  have hyphens : t[8]? = some '-' ∧ t[13]? = some '-' ∧ t[18]? = some '-' ∧ t[23]? = some '-' := by
    refine ⟨?_, ?_, ?_, ?_⟩
    · rw [← whole, hyphenBehind first]
    · rw [← hyphenBehind second (c ++ '-' :: (d ++ '-' :: e)), ← behindFirst, List.getElem?_drop]
    · rw [← hyphenBehind third (d ++ '-' :: e), ← behindSecond, List.getElem?_drop]
    · rw [← hyphenBehind fourth e, ← behindThird, List.getElem?_drop]
  have taken : t.take 8 = a := by
    rw [← whole, takePart first]
  simp [grouped?, hyphens, taken, behindFirst, behindSecond, behindThird, behindFourth, takePart second,
    takePart third, takePart fourth]

theorem readPrint (u : Uuid) : read? u.print = some u := by
  have first : (u.part 0 4).length = 8 := u.partLength (by decide)
  have second : (u.part 4 2).length = 4 := u.partLength (by decide)
  have third : (u.part 6 2).length = 4 := u.partLength (by decide)
  have fourth : (u.part 8 2).length = 4 := u.partLength (by decide)
  have fifth : (u.part 10 6).length = 12 := u.partLength (by decide)
  have length : u.print.length = 36 := by
    simp [printParts, first, second, third, fourth, fifth]
  have grouped : grouped? u.print = some u := by
    rw [printParts, groupedRead first second third fourth, partsJoined, simple?, Hex.toBytesOfBytes]
    exact dif_pos u.sixteen
  rw [read?, length, if_neg (by decide), if_pos rfl, grouped]

end Uuid

def Date.wire? (d : Date) : Option Bytes :=
  if -2 ^ 31 ≤ d.toDay ∧ d.toDay < 2 ^ 31 then some (Bytes.ofInt 4 d.toDay) else none

namespace Stamp

def wire? (s : Stamp) : Option Bytes :=
  if -2 ^ 63 ≤ s.toMicros ∧ s.toMicros < 2 ^ 63 then some (Bytes.ofInt 8 s.toMicros) else none

structure Representable (s : Stamp) : Prop where
  date : (Date.ofDay s.day).valid
  clock : s.clock.Within

end Stamp

namespace Binding

theorem stampSent {s : Stamp} (representable : s.Representable) :
    bind (Value.ofStamp s) (.scalar .timestamptz) = .ok (some (Bytes.ofInt 8 s.toMicros)) := by
  have read := Stamp.readUniversalSettled representable.date representable.clock
  simp only [Value.ofStamp, bind, scalar, ofText, read, sendOr, Stamp.toMicrosSettled, sent]

theorem dateSent {d : Date} (valid : d.valid) :
    bind (Value.ofDate d) (.scalar .date) = .ok (some (Bytes.ofInt 4 d.toDay)) := by
  simp only [Value.ofDate, bind, scalar, ofText, Text.trimSolid (Date.printSolid d), Date.readPrint valid, sendOr,
    sent]

theorem uuidSent (u : Uuid) : bind (Value.ofUuid u) (.scalar .uuid) = .ok (some u.octets) := by
  simp only [Value.ofUuid, bind, scalar, ofText, Text.trimSolid u.printSolid, u.readPrint, sendOr, sent]

theorem carriedTextSent :
    (∀ s : Stamp, s.Representable →
      ∃ bs, s.wire? = some bs ∧ bind (Value.ofStamp s) (.scalar .timestamptz) = .ok (some bs)) ∧
    (∀ d : Date, d.valid → ∃ bs, d.wire? = some bs ∧ bind (Value.ofDate d) (.scalar .date) = .ok (some bs)) ∧
    ∀ u : Uuid, bind (Value.ofUuid u) (.scalar .uuid) = .ok (some u.octets) := by
  refine ⟨fun s representable => ?_, fun d valid => ?_, uuidSent⟩
  · have fits := Stamp.microsFit (Date.ofDayNear representable.date) representable.clock
    exact ⟨_, if_pos fits, stampSent representable⟩
  · have near := Date.toDayNear valid
    have fits : -2 ^ 31 ≤ d.toDay ∧ d.toDay < 2 ^ 31 := by omega
    exact ⟨_, if_pos fits, dateSent valid⟩

theorem leapSecondSent :
    (∃ bs, Stamp.wire? ⟨6209, ⟨86399, 1000000001⟩⟩ = some bs ∧
      bind (.text "2016-12-31T23:59:60.000000001+00:00") (.scalar .timestamptz) = .ok (some bs)) ∧
    (∃ bs, Date.wire? ⟨-44, 3, 15⟩ = some bs ∧ bind (.text "-0044-03-15") (.scalar .date) = .ok (some bs)) ∧
    bind (.text "00010203-0405-0607-0809-0a0b0c0d0eff") (.scalar .uuid) =
      .ok (some [0, 1, 2, 3, 4, 5, 6, 7, 8, 9, 10, 11, 12, 13, 14, 255]) := by
  have representable : Stamp.Representable ⟨6209, ⟨86399, 1000000001⟩⟩ := ⟨by decide +kernel, by decide, by decide⟩
  have moment : Value.ofStamp ⟨6209, ⟨86399, 1000000001⟩⟩ = .text "2016-12-31T23:59:60.000000001+00:00" := by
    decide +kernel
  have day : Value.ofDate ⟨-44, 3, 15⟩ = .text "-0044-03-15" := by decide +kernel
  have name : Value.ofUuid ⟨[0, 1, 2, 3, 4, 5, 6, 7, 8, 9, 10, 11, 12, 13, 14, 255], rfl⟩ =
      .text "00010203-0405-0607-0809-0a0b0c0d0eff" := by
    decide +kernel
  rw [← moment, ← day, ← name]
  exact ⟨carriedTextSent.1 _ representable, carriedTextSent.2.1 _ (by decide), carriedTextSent.2.2 _⟩

end Binding
end TableGateway
