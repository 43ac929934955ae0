import TableGateway.Bytes

/-! How text stands in bytes. A character of ASCII is one byte that is in no other character, and every other
character is a first byte with more behind it, all of them beyond ASCII. -/
namespace TableGateway
namespace Bytes
open String (utf8EncodeChar)

def char (b : UInt8) : Char := Char.ofNat b.toNat

def Ascii (p : Char → Bool) : Prop := ∀ c, p c → c.toNat ≤ 127

def isContinuation (b : UInt8) : Bool := 128 ≤ b.toNat && b.toNat < 192

variable {c d : Char} {t : Text} {p : Char → Bool}

theorem charNumber (b : UInt8) : (char b).toNat = b.toNat := by
  have byte : b.toNat < 256 := b.toNat_lt
  have valid : b.toNat.isValidChar := .inl (by omega)
  rw [char, Char.ofNat, dif_pos valid]
  rfl

theorem narrow (ascii : c.toNat ≤ 127) : utf8EncodeChar c = [UInt8.ofNat c.toNat] := if_pos ascii

theorem charNarrow (ascii : c.toNat ≤ 127) : char (UInt8.ofNat c.toNat) = c := by
  have same : (UInt8.ofNat c.toNat).toNat = c.toNat := UInt8.toNat_ofNat_of_lt' (by simp [UInt8.size]; omega)
  rw [char, same, Char.ofNat_toNat]

theorem wide (beyond : 127 < c.toNat) : ∃ first others, utf8EncodeChar c = first :: others ∧
    192 ≤ first.toNat ∧ ∀ b ∈ others, isContinuation b := by
  have beyond : ¬ c.val.toNat ≤ 127 := Nat.not_le.mpr beyond
  simp only [utf8EncodeChar, if_neg beyond]
  split
  · exact ⟨_, _, rfl, by simp; omega, by simp [isContinuation]; omega⟩
  · split
    · exact ⟨_, _, rfl, by simp; omega, by simp [isContinuation]; omega⟩
    · exact ⟨_, _, rfl, by simp; omega, by simp [isContinuation]; omega⟩

theorem ofTextNil : ofText [] = [] := rfl

theorem ofTextCons (c : Char) (t : Text) : ofText (c :: t) = utf8EncodeChar c ++ ofText t := List.flatMap_cons

theorem ofTextAppend (t u : Text) : ofText (t ++ u) = ofText t ++ ofText u := List.flatMap_append

theorem ofTextNarrow (ascii : c.toNat ≤ 127) (t : Text) :
    ofText (c :: t) = UInt8.ofNat c.toNat :: ofText t := by
  rw [ofTextCons, narrow ascii, List.singleton_append]

theorem mapCharText (ascii : ∀ c ∈ t, c.toNat ≤ 127) : (ofText t).map char = t := by
  induction t with
  | nil => rfl
  | cons c t ih =>
    obtain ⟨first, others⟩ := List.forall_mem_cons.mp ascii
    rw [ofTextNarrow first, List.map_cons, charNarrow first, ih others]

theorem lengthText (ascii : ∀ c ∈ t, c.toNat ≤ 127) : (ofText t).length = t.length := by
  have same := congrArg List.length (mapCharText ascii)
  rwa [List.length_map] at same

theorem beyondByte (beyond : 127 < c.toNat) : ∀ b ∈ utf8EncodeChar c, 127 < (char b).toNat := by
  obtain ⟨first, others, same, high, rest⟩ := wide beyond
  rw [same]
  refine List.forall_mem_cons.mpr ⟨by rw [charNumber]; omega, fun b member => ?_⟩
  have low := rest b member
  simp only [isContinuation, Bool.and_eq_true, decide_eq_true_eq] at low
  rw [charNumber]
  omega

theorem beyondFirst (beyond : 127 < c.toNat) :
    ∃ first others, utf8EncodeChar c = first :: others ∧ 127 < (char first).toNat := by
  obtain ⟨first, others, same, -⟩ := wide beyond
  exact ⟨first, others, same, beyondByte beyond first (same ▸ List.mem_cons_self)⟩

theorem unlikeBeyond (ascii : d.toNat ≤ 127) {b : UInt8} (beyond : 127 < (char b).toNat) :
    b ≠ UInt8.ofNat d.toNat := by
  rintro rfl
  rw [charNarrow ascii] at beyond
  exact absurd ascii (Nat.not_le.mpr beyond)

theorem otherByte (ascii : d.toNat ≤ 127) (other : c ≠ d) : ∀ b ∈ utf8EncodeChar c, char b ≠ d := by
  rintro b member rfl
  by_cases small : c.toNat ≤ 127
  · rw [narrow small, List.mem_singleton] at member
    subst member
    exact other (charNarrow small).symm
  · exact absurd ascii (Nat.not_le.mpr (beyondByte (Nat.not_le.mp small) b member))

theorem Ascii.beyond (ascii : Ascii p) (beyond : 127 < c.toNat) : p c = false :=
  Bool.eq_false_iff.mpr fun yes => Nat.not_le.mpr beyond (ascii c yes)

theorem headText (ascii : Ascii p) (t : Text) : ((ofText t).head?.any fun b => p (char b)) = t.head?.any p := by
  cases t with
  | nil => rfl
  | cons c t =>
    by_cases small : c.toNat ≤ 127
    · simp [ofTextNarrow small, charNarrow small]
    · have beyond := Nat.not_le.mp small
      obtain ⟨first, others, same, high⟩ := beyondFirst beyond
      simp [ofTextCons, same, ascii.beyond beyond, ascii.beyond high]

theorem headBegins (t : Text) : ∀ b ∈ (ofText t).head?, isContinuation b = false := by
  intro b member
  cases t with
  | nil => cases member
  | cons c t =>
    by_cases small : c.toNat ≤ 127
    · rw [ofTextNarrow small] at member
      cases member
      have same := congrArg Char.toNat (charNarrow small)
      rw [charNumber] at same
      simp [isContinuation, same]
      omega
    · obtain ⟨first, others, same, high, -⟩ := wide (Nat.not_le.mp small)
      rw [ofTextCons, same] at member
      cases member
      simp [isContinuation]
      omega

theorem lastText (upper : ∀ c, 127 < c.toNat → p c) (t : Text) :
    ((ofText t).getLast?.any fun b => p (char b)) = t.getLast?.any p := by
  rcases List.eq_nil_or_concat t with rfl | ⟨front, c, rfl⟩
  · rfl
  · rw [List.concat_eq_append, ofTextAppend, List.getLast?_append, List.getLast?_concat, ofTextCons, ofTextNil,
      List.append_nil]
    by_cases small : c.toNat ≤ 127
    · simp [narrow small, charNarrow small]
    · have beyond := Nat.not_le.mp small
      have last := List.getLast?_eq_some_getLast (String.utf8EncodeChar_ne_nil (c := c))
      have high := beyondByte beyond _ (List.getLast_mem (String.utf8EncodeChar_ne_nil (c := c)))
      simp [last, upper _ beyond, upper _ high]

theorem takeWhileText (ascii : Ascii p) (t : Text) :
    (ofText t).takeWhile (fun b => p (char b)) = ofText (t.takeWhile p) := by
  induction t with
  | nil => rfl
  | cons c t ih =>
    by_cases small : c.toNat ≤ 127
    · by_cases taken : p c
      · simp [ofTextNarrow small, charNarrow small, taken, ih]
      · simp [ofTextNarrow small, charNarrow small, taken, ofTextNil]
    · have beyond := Nat.not_le.mp small
      obtain ⟨first, others, same, high⟩ := beyondFirst beyond
      simp [ofTextCons, same, ascii.beyond beyond, ascii.beyond high, ofTextNil]

theorem isPrefixText {mark : Text} (ascii : ∀ c ∈ mark, c.toNat ≤ 127) (t : Text) :
    (ofText mark).isPrefixOf (ofText t) = mark.isPrefixOf t := by
  induction mark generalizing t with
  | nil => rw [ofTextNil, List.isPrefixOf_nil_left, List.isPrefixOf_nil_left]
  | cons m mark ih =>
    obtain ⟨first, others⟩ := List.forall_mem_cons.mp ascii
    cases t with
    | nil => simp [ofTextNarrow first, ofTextNil]
    | cons c t =>
      by_cases small : c.toNat ≤ 127
      · have byte : (UInt8.ofNat m.toNat == UInt8.ofNat c.toNat) = (m == c) := by
          rw [Bool.eq_iff_iff, beq_iff_eq, beq_iff_eq]
          refine ⟨fun same => ?_, fun same => same ▸ rfl⟩
          rw [← charNarrow first, same, charNarrow small]
        rw [ofTextNarrow first, ofTextNarrow small, List.isPrefixOf_cons_cons, List.isPrefixOf_cons_cons, byte,
          ih others]
      · have beyond := Nat.not_le.mp small
        obtain ⟨lead, behind, same, high⟩ := beyondFirst beyond
        have unlike : m ≠ c := by
          rintro rfl
          exact small first
        have byte := (unlikeBeyond first high).symm
        rw [ofTextNarrow first, ofTextCons, same, List.cons_append, List.isPrefixOf_cons_cons,
          List.isPrefixOf_cons_cons, beq_false_of_ne byte, beq_false_of_ne unlike, Bool.false_and, Bool.false_and]

end Bytes
end TableGateway
