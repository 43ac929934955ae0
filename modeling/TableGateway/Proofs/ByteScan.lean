import TableGateway.Proofs.Encoding
import TableGateway.Proofs.Pieces

/-! Scanning in bytes. Literals, delimiters and dollar-quoted texts go as far in the bytes of a text as in the text,
since whatever begins or ends them is of ASCII. -/
namespace TableGateway
namespace Bytes
open Placeholder

def literalLength : Bytes → Nat
  | [] => 0
  | b :: rest =>
    if char b = '\'' then
      match rest with
      | [] => 1
      | d :: rest => if char d = '\'' then 2 + literalLength rest else 1
    else 1 + literalLength rest

def nameLength : Bytes → Nat
  | [] => 0
  | b :: rest =>
    if (char b).isAlpha || char b = '_' then
      1 + (rest.takeWhile fun d => (char d).isAlphanum || char d = '_').length
    else 0

def delimiterLength? (bs : Bytes) : Option Nat :=
  if bs[nameLength bs]?.any fun b => char b = '$' then some (nameLength bs + 1) else none

def find? (mark : Bytes) : Bytes → Option Nat
  | [] => if mark = [] then some 0 else none
  | b :: rest => if mark.isPrefixOf (b :: rest) then some 0 else (find? mark rest).map (· + 1)

def quotedLength (mark bs : Bytes) : Nat :=
  match find? mark bs with
  | some n => n + mark.length
  | none => bs.length

variable {bs : Bytes}

theorem asciiOne {d : Char} (ascii : d.toNat ≤ 127) : Ascii fun c => c = d := fun c same => by
  rwa [of_decide_eq_true same]

theorem asciiDigit : Ascii Char.isDigit := fun c digit => by
  have within := Text.digitWithin digit
  omega

theorem asciiFirst : Ascii fun c => c.isAlpha || c = '_' := fun c first => by
  obtain alpha | line := Bool.or_eq_true_iff.mp first
  · have within := Text.alphaWithin alpha
    omega
  · rw [of_decide_eq_true line]
    decide

theorem asciiWord : Ascii fun c => c.isAlphanum || c = '_' := fun c word => by
  obtain alphanum | line := Bool.or_eq_true_iff.mp word
  · obtain alpha | digit := Bool.or_eq_true_iff.mp alphanum
    · exact asciiFirst c (Bool.or_eq_true_iff.mpr (.inl alpha))
    · exact asciiDigit c digit
  · exact asciiFirst c (Bool.or_eq_true_iff.mpr (.inr line))

theorem digitsText (t : Text) :
    (ofText t).takeWhile (fun b => (char b).isDigit) = ofText (Text.spanDigits t).1 := takeWhileText asciiDigit t

theorem literalLengthOther {b : UInt8} (quoteless : char b ≠ '\'') (rest : Bytes) :
    literalLength (b :: rest) = 1 + literalLength rest := by
  cases rest <;> simp [literalLength, quoteless]

theorem literalLengthPlain {word : Bytes} (quoteless : ∀ b ∈ word, char b ≠ '\'') (rest : Bytes) :
    literalLength (word ++ rest) = word.length + literalLength rest := by
  induction word with
  | nil => simp
  | cons b word ih =>
    obtain ⟨here, later⟩ := List.forall_mem_cons.mp quoteless
    rw [List.cons_append, literalLengthOther here, ih later, List.length_cons]
    omega

theorem literalLengthClosed {b : UInt8} {rest : Bytes} (quote : char b = '\'')
    (single : rest.head?.any (fun d => char d = '\'') = false) : literalLength (b :: rest) = 1 := by
  cases rest with
  | nil => simp [literalLength, quote]
  | cons d rest =>
    have other : char d ≠ '\'' := by simpa using single
    simp [literalLength, quote, other]

theorem literalLengthText (t : Text) : literalLength (ofText t) = (ofText (literal t).1).length := by
  have quote : ∀ t, ofText ('\'' :: t) = 39 :: ofText t := fun t => rfl
  have charQuote : char 39 = '\'' := by decide
  fun_induction literal t with
  | case1 => rfl
  | case2 rest body after same ih =>
    simp only [same] at ih
    simp [quote, charQuote, literalLength, ih]
    omega
  | case3 rest single =>
    have next : rest.head?.any (fun c => c = '\'') = false := by
      cases rest with
      | nil => rfl
      | cons d rest =>
        have other : d ≠ '\'' := fun same => single rest (by rw [same])
        simp [other]
    rw [← headText (asciiOne (by decide))] at next
    rw [quote, literalLengthClosed charQuote next]
    rfl
  | case4 c rest _ other body after same ih =>
    have quoteless : c ≠ '\'' := other
    simp only [same] at ih
    rw [ofTextCons, literalLengthPlain (otherByte (by decide) quoteless), ih, ofTextCons,
      List.length_append]

theorem nameLengthText (t : Text) : nameLength (ofText t) = (ofText (leadingName t)).length := by
  cases t with
  | nil => rfl
  | cons c t =>
    by_cases small : c.toNat ≤ 127
    · by_cases first : (c.isAlpha || c = '_')
      · have word := firstWord first
        have narrow := charNarrow small
        rw [ofTextNarrow small, nameLength, narrow, if_pos first, takeWhileText asciiWord, leadingName,
          if_pos first, List.takeWhile_cons, if_pos word, ofTextNarrow small, List.length_cons, Nat.add_comm]
      · simp [ofTextNarrow small, nameLength, charNarrow small, leadingName, first, ofTextNil]
    · have beyond := Nat.not_le.mp small
      obtain ⟨lead, behind, same, high⟩ := beyondFirst beyond
      have byte := asciiFirst.beyond high
      have whole := asciiFirst.beyond beyond
      rw [ofTextCons, same, List.cons_append, nameLength, if_neg (ne_true_of_eq_false byte), leadingName,
        if_neg (ne_true_of_eq_false whole)]
      rfl

theorem delimiterLengthText (t : Text) :
    delimiterLength? (ofText t) = (tag? t).map fun found => (ofText found.1).length := by
  obtain ⟨u, whole⟩ := leadingPrefix t
  have bytes : ofText t = ofText (leadingName t) ++ ofText u := by rw [← ofTextAppend, whole]
  have byte : (ofText t)[nameLength (ofText t)]? = (ofText u).head? := by
    rw [nameLengthText, bytes, List.getElem?_append_right (Nat.le_refl _), Nat.sub_self, List.head?_eq_getElem?]
  rw [delimiterLength?, byte, headText (asciiOne (by decide)), nameLengthText, tagLeading whole]
  cases u with
  | nil => rfl
  | cons c u =>
    by_cases sign : c = '$'
    · simp [sign, ofTextAppend, ofTextNarrow, ofTextNil]
    · simp [sign]

theorem quotedLengthHere {mark : Bytes} (starts : mark.isPrefixOf bs) : quotedLength mark bs = mark.length := by
  cases bs with
  | nil =>
    obtain rfl : mark = [] := List.prefix_nil.mp (List.isPrefixOf_iff_prefix.mp starts)
    rfl
  | cons b rest => simp [quotedLength, find?, starts]

theorem quotedLengthLater {mark rest : Bytes} {b : UInt8} (unlike : mark.isPrefixOf (b :: rest) = false) :
    quotedLength mark (b :: rest) = 1 + quotedLength mark rest := by
  rw [quotedLength, quotedLength, find?, if_neg (ne_true_of_eq_false unlike)]
  cases find? mark rest <;> simp <;> omega

theorem quotedLengthPlain {b : UInt8} {mark word : Bytes} (signless : ∀ d ∈ word, d ≠ b) (rest : Bytes) :
    quotedLength (b :: mark) (word ++ rest) = word.length + quotedLength (b :: mark) rest := by
  induction word with
  | nil => simp
  | cons d word ih =>
    obtain ⟨here, later⟩ := List.forall_mem_cons.mp signless
    have unlike : (b :: mark).isPrefixOf (d :: (word ++ rest)) = false := by
      rw [List.isPrefixOf_cons_cons, beq_false_of_ne here.symm, Bool.false_and]
    rw [List.cons_append, quotedLengthLater unlike, ih later, List.length_cons]
    omega

theorem quotedLengthText {mark : Text} (filled : mark ≠ []) (ascii : ∀ c ∈ mark, c.toNat ≤ 127) (t : Text) :
    quotedLength (ofText mark) (ofText t) = (ofText (through mark t).1).length := by
  obtain ⟨m, later, rfl⟩ := List.exists_cons_of_ne_nil filled
  have first : m.toNat ≤ 127 := ascii m List.mem_cons_self
  fun_induction through (m :: later) t with
  | case1 => simp [ofTextNil, quotedLength, find?, ofTextNarrow first]
  | case2 c rest starts =>
    rw [← isPrefixText ascii] at starts
    exact quotedLengthHere starts
  | case3 c rest differs body after same ih =>
    simp only [same] at ih
    rw [← isPrefixText ascii] at differs
    have unlike := Bool.eq_false_iff.mpr differs
    by_cases small : c.toNat ≤ 127
    · rw [ofTextNarrow small] at unlike ⊢
      rw [quotedLengthLater unlike, ih, ofTextNarrow small, List.length_cons, Nat.add_comm]
    · have beyond := Nat.not_le.mp small
      obtain ⟨lead, behind, spelled, -⟩ := wide beyond
      have signless : ∀ d ∈ behind, d ≠ UInt8.ofNat m.toNat := fun d member =>
        unlikeBeyond first (beyondByte beyond d (spelled ▸ List.mem_cons_of_mem _ member))
      have here : ofText (c :: rest) = lead :: (behind ++ ofText rest) := by
        rw [ofTextCons, spelled, List.cons_append]
      rw [here] at unlike ⊢
      rw [quotedLengthLater unlike]
      rw [ofTextNarrow first] at ih ⊢
      rw [quotedLengthPlain signless, ih, ofTextCons, spelled]
      simp
      omega

theorem tagAscii {name : Text} (tagName : TagName name) : ∀ c ∈ name ++ ['$'], c.toNat ≤ 127 := by
  intro c member
  rcases List.mem_append.mp member with inside | last
  · exact asciiWord c (tagName.word c inside)
  · rw [List.mem_singleton.mp last]
    decide

end Bytes
end TableGateway
