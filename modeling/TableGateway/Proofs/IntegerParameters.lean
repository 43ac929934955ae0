import TableGateway.Binding
import TableGateway.Proofs.JsonNumbers
import TableGateway.Proofs.Rounding

/-! Whole numbers for parameters of an integer type. A value of any kind that stands for a whole number is sent if
the type has room for the number, and no other value but null is sent at all. -/
namespace TableGateway

namespace Integral

inductive Spells : Text → Int → Prop
  | digits {t : Text} {n : Int} (filled : t ≠ []) (all : ∀ c ∈ t, c.isDigit) (value : n = Text.toNat t) : Spells t n
  | plus {t : Text} {n : Int} (filled : t ≠ []) (all : ∀ c ∈ t, c.isDigit) (value : n = Text.toNat t) :
      Spells ('+' :: t) n
  | minus {t : Text} {n : Int} (filled : t ≠ []) (all : ∀ c ∈ t, c.isDigit) (value : n = -Text.toNat t) :
      Spells ('-' :: t) n

theorem readUpFound {range : Range} {t : Text} {n : Nat} {m : Int} (within : n ≤ range.high) :
    readUp range n t = .ok m ↔ (∀ c ∈ t, c.isDigit) ∧ m = Nat.ofDigitChars 10 t n ∧ m ≤ range.high := by
  induction t generalizing n with
  | nil =>
    simp only [readUp, Except.ok.injEq, Nat.ofDigitChars_nil]
    constructor
    · rintro rfl
      exact ⟨nofun, rfl, within⟩
    · exact fun found => found.2.1.symm
  | cons c t ih =>
    have next : Nat.ofDigitChars 10 (c :: t) n = Nat.ofDigitChars 10 t (10 * n + Text.digitValue c) :=
      Nat.ofDigitChars_cons
    have cast : (n : Int) * 10 + Text.digitValue c = (10 * n + Text.digitValue c : Nat) := by omega
    -- A number that has left the range does not come back with the digits that follow.
    have grows := Text.ofDigitCharsGrows t (10 * n + Text.digitValue c)
    rw [readUp, next, cast]
    by_cases digit : c.isDigit
    · rw [if_neg (by simp [digit])]
      by_cases beyond : range.high < (10 * n + Text.digitValue c : Nat)
      · rw [if_pos beyond]
        constructor
        · nofun
        · rintro ⟨-, rfl, fits⟩
          omega
      · rw [if_neg beyond, ih (by omega)]
        simp [digit]
    · rw [if_pos (by simp [digit])]
      constructor
      · nofun
      · exact fun found => absurd (found.1 c List.mem_cons_self) digit

theorem readDownMirrored {range : Range} {t : Text} {n m : Int} :
    readDown range (-n) t = .ok m ↔ readUp ⟨-range.high, -range.low⟩ n t = .ok (-m) := by
  induction t generalizing n with
  | nil =>
    simp only [readDown, readUp, Except.ok.injEq]
    omega
  | cons c t ih =>
    have next : -n * 10 - Text.digitValue c = -(n * 10 + Text.digitValue c) := by omega
    have beyond : -(n * 10 + Text.digitValue c) < range.low ↔ -range.low < n * 10 + Text.digitValue c := by omega
    simp only [readDown, readUp, next, beyond]
    split
    · constructor <;> nofun
    · split
      · constructor <;> nofun
      · exact ih

theorem readUpWhole {range : Range} (above : 0 ≤ range.high) {t : Text} {n : Int} :
    readUp range 0 t = .ok n ↔ (∀ c ∈ t, c.isDigit) ∧ n = Text.toNat t ∧ n ≤ range.high :=
  readUpFound (n := 0) above

theorem readDownWhole {range : Range} (below : range.low < 0) {t : Text} {n : Int} :
    readDown range 0 t = .ok n ↔ (∀ c ∈ t, c.isDigit) ∧ n = -Text.toNat t ∧ range.low ≤ n := by
  have mirrored : readDown range 0 t = .ok n ↔ readUp ⟨-range.high, -range.low⟩ 0 t = .ok (-n) :=
    readDownMirrored (n := 0)
  rw [mirrored, readUpWhole (by simp; omega)]
  simp only [Int.neg_le_neg_iff]
  exact and_congr_right fun _ => and_congr_left fun _ => by omega

theorem spellsPlus {t : Text} {n : Int} :
    Spells ('+' :: t) n ↔ t ≠ [] ∧ (∀ c ∈ t, c.isDigit) ∧ n = Text.toNat t := by
  constructor
  · intro spelled
    cases spelled with
    | digits _ all => exact absurd (all '+' List.mem_cons_self) (by decide)
    | plus filled all value => exact ⟨filled, all, value⟩
  · exact fun ⟨filled, all, value⟩ => .plus filled all value

theorem spellsMinus {t : Text} {n : Int} :
    Spells ('-' :: t) n ↔ t ≠ [] ∧ (∀ c ∈ t, c.isDigit) ∧ n = -Text.toNat t := by
  constructor
  · intro spelled
    cases spelled with
    | digits _ all => exact absurd (all '-' List.mem_cons_self) (by decide)
    | minus filled all value => exact ⟨filled, all, value⟩
  · exact fun ⟨filled, all, value⟩ => .minus filled all value

theorem spellsUnsigned {c : Char} (plus : c ≠ '+') (minus : c ≠ '-') {t : Text} {n : Int} :
    Spells (c :: t) n ↔ (∀ d ∈ c :: t, d.isDigit) ∧ n = Text.toNat (c :: t) := by
  constructor
  · intro spelled
    cases spelled with
    | digits _ all value => exact ⟨all, value⟩
    | plus => exact absurd rfl plus
    | minus => exact absurd rfl minus
  · exact fun ⟨all, value⟩ => .digits (List.cons_ne_nil c t) all value

theorem readSpelled {range : Range} (below : range.low < 0) (above : 0 ≤ range.high) {t : Text} {n : Int} :
    read range t = .ok n ↔ Spells t n ∧ range.low ≤ n ∧ n ≤ range.high := by
  cases t with
  | nil =>
    constructor
    · nofun
    · rintro ⟨spelled, -⟩
      cases spelled
      contradiction
  | cons c t =>
    by_cases plus : c = '+'
    · subst plus
      cases t with
      | nil => simp [read, spellsPlus]
      | cons d t =>
        rw [show read range ('+' :: d :: t) = readUp range 0 (d :: t) from rfl, readUpWhole above, spellsPlus]
        constructor
        · exact fun ⟨all, value, high⟩ => ⟨⟨List.cons_ne_nil d t, all, value⟩, by omega, high⟩
        · exact fun ⟨⟨_, all, value⟩, _, high⟩ => ⟨all, value, high⟩
    by_cases minus : c = '-'
    · subst minus
      cases t with
      | nil => simp [read, spellsMinus]
      | cons d t =>
        have taken : read range ('-' :: d :: t) = readDown range 0 (d :: t) := if_pos below
        rw [taken, readDownWhole below, spellsMinus]
        constructor
        · exact fun ⟨all, value, low⟩ => ⟨⟨List.cons_ne_nil d t, all, value⟩, low, by omega⟩
        · exact fun ⟨⟨_, all, value⟩, low, _⟩ => ⟨all, value, low⟩
    · have taken : read range (c :: t) = readUp range 0 (c :: t) := by simp [read, plus, minus]
      rw [taken, readUpWhole above, spellsUnsigned plus minus]
      constructor
      · exact fun ⟨all, value, high⟩ => ⟨⟨all, value⟩, by omega, high⟩
      · exact fun ⟨⟨all, value⟩, _, high⟩ => ⟨all, value, high⟩

end Integral

def Reading.value? : Reading → Option ℚ
  | .finite negative m q => some ((if negative then -1 else 1) * (m * 2 ^ q))
  | _ => none

theorem ratioWhole {num den : Nat} (positive : 0 < den) (k : Int) :
    (num : ℚ) / den = k ↔ num % den = 0 ∧ k = (num / den : Nat) := by
  have size : (den : ℚ) ≠ 0 := by positivity
  constructor
  · intro same
    have same : (num : Int) = k * den := by exact_mod_cast (div_eq_iff size).mp same
    have whole : (num : Int) % den = 0 := same ▸ Int.mul_emod_left k den
    have quotient : (num : Int) / den = k := same ▸ Int.mul_ediv_cancel k (by omega)
    exact ⟨by exact_mod_cast whole, by exact_mod_cast quotient.symm⟩
  · rintro ⟨whole, rfl⟩
    rw [div_eq_iff size]
    exact_mod_cast (Nat.div_mul_cancel (Nat.dvd_of_mod_eq_zero whole)).symm

theorem Binary.wholeValue {f : BinaryFormat} (x : Binary f) (n : Int) :
    x.whole? = some n ↔ x.reading.value? = some (n : ℚ) := by
  unfold whole?
  cases x.reading with
  | nan | infinite => simp [Reading.value?]
  | finite negative m q =>
    have positive : 0 < (binaryRatio m q).2 := Nat.pow_pos (by decide)
    simp only [Reading.value?, ← binaryRatioValue, Option.ite_none_right_eq_some, Option.some.injEq]
    cases negative with
    | false =>
      rw [if_neg Bool.false_ne_true, if_neg Bool.false_ne_true, one_mul, ratioWhole positive]
      exact and_congr_right fun _ => eq_comm
    | true =>
      have opposite (r : ℚ) : -1 * r = n ↔ r = (-n : Int) := by
        push_cast
        constructor <;> intro same <;> linarith
      rw [if_pos rfl, if_pos rfl, opposite, ratioWhole positive]
      exact and_congr_right fun _ => by omega

def Json.isScalar : Json → Bool
  | .array _ | .object _ => false
  | _ => true

namespace Value

inductive Denotes : Value → Int → Prop
  | int (n : Int64) : Denotes (.int n) n.toInt
  | float {x : Binary64} {n : Int} (value : x.reading.value? = some (n : ℚ)) : Denotes (.float x) n
  | text {t : Text} {n : Int} (spelled : Integral.Spells (Text.trim t) n) : Denotes (.text t) n
  | json {j : Json} {n : Int} (scalar : j.isScalar) (denotes : Denotes (ofJson j) n) : Denotes (.json j) n

theorem denotesJson {j : Json} (scalar : j.isScalar) {n : Int} : Denotes (.json j) n ↔ Denotes (ofJson j) n := by
  refine ⟨fun denotes => ?_, .json scalar⟩
  cases denotes with
  | json _ denotes => exact denotes

theorem denotesNull {v : Value} (null : v = .null ∨ v = .json .null) (n : Int) : ¬Denotes v n := by
  rcases null with rfl | rfl
  · nofun
  · rw [denotesJson rfl]
    nofun

theorem ofJsonPlain {j : Json} (scalar : j.isScalar) (present : j ≠ .null) :
    ofJson j ≠ .null ∧ ∀ k, ofJson j ≠ .json k := by
  cases j with
  | null => exact absurd rfl present
  | array | object => cases scalar
  | whole n =>
    rw [ofJson]
    split <;> exact ⟨nofun, nofun⟩
  | bool | float | string => exact ⟨nofun, nofun⟩

end Value

namespace Binding

inductive IntegerType : Scalar → Nat → Prop
  | two : IntegerType .int2 2
  | four : IntegerType .int4 4
  | eight : IntegerType .int8 8

def Room (width : Nat) (n : Int) : Prop := -2 ^ (8 * width - 1) ≤ n ∧ n < 2 ^ (8 * width - 1)

instance (width : Nat) (n : Int) : Decidable (Room width n) := inferInstanceAs (Decidable (_ ∧ _))

structure Sends (width : Nat) (stands : Int → Prop) (r : Result) : Prop where
  number : ∀ bs, r = .ok (some bs) ↔ ∃ n, stands n ∧ Room width n ∧ bs = Bytes.ofInt width n
  present : r ≠ .ok none

variable {s : Scalar} {width : Nat}

theorem Sends.congr {stands others : Int → Prop} {r : Result} (sends : Sends width stands r)
    (same : ∀ n, Room width n → (others n ↔ stands n)) : Sends width others r := by
  refine ⟨fun bs => ?_, sends.present⟩
  rw [sends.number]
  exact exists_congr fun n => by
    constructor <;> rintro ⟨one, room, rfl⟩
    · exact ⟨(same n room).mpr one, room, rfl⟩
    · exact ⟨(same n room).mp one, room, rfl⟩

theorem sendsNone (fault : BindFault) : Sends width (fun _ => False) (.error fault) := by
  refine ⟨fun bs => ?_, nofun⟩
  constructor
  · nofun
  · rintro ⟨_, ⟨⟩, _⟩

theorem sendsFound {ε : Type} {x : Except ε Int} {stands : Int → Prop} {r : Result}
    (found : ∀ n, x = .ok n ↔ stands n ∧ Room width n) (ok : ∀ n, x = .ok n → r = sent (Bytes.ofInt width n))
    (error : ∀ e, x = .error e → ∃ fault, r = .error fault) : Sends width stands r := by
  cases read : x with
  | ok n =>
    rw [ok n read]
    refine ⟨fun bs => ?_, nofun⟩
    rw [sent, Except.ok.injEq, Option.some.injEq]
    constructor
    · rintro rfl
      obtain ⟨one, room⟩ := (found n).mp read
      exact ⟨n, one, room, rfl⟩
    · rintro ⟨m, one, room, rfl⟩
      rw [Except.ok.inj (read.symm.trans ((found m).mpr ⟨one, room⟩))]
  | error e =>
    obtain ⟨fault, rfl⟩ := error e read
    refine (sendsNone fault).congr fun n room => iff_of_false (fun one => ?_) id
    rw [(found n).mpr ⟨one, room⟩] at read
    cases read

theorem IntegerType.range (integer : IntegerType s width) : integral? s = some (width, .signed (8 * width)) := by
  cases integer <;> rfl

theorem IntegerType.roomWithin (integer : IntegerType s width) {n : Int} (room : Room width n) : Room 8 n := by
  simp only [Room] at room ⊢
  cases integer <;> omega

theorem signedRoom {n : Int} :
    (Integral.Range.signed (8 * width)).low ≤ n ∧ n ≤ (Integral.Range.signed (8 * width)).high ↔ Room width n := by
  simp only [Integral.Range.signed, Room]
  omega

theorem checkRoom {n m : Int} :
    (Integral.Range.signed (8 * width)).check n = .ok m ↔ m = n ∧ Room width m := by
  rw [← signedRoom, Integral.Range.check]
  split
  · exact ⟨nofun, by omega⟩
  · split
    · exact ⟨nofun, by omega⟩
    · rw [Except.ok.injEq]
      omega

theorem scalarOfJson {j : Json} (single : j.isScalar) (present : j ≠ .null) (other : ¬(s = .json ∨ s = .jsonb)) :
    scalar (.json j) s = scalar (Value.ofJson j) s := by
  cases j with
  | null => exact absurd rfl present
  | array | object => cases single
  | whole n =>
    refine (if_neg other).trans ?_
    rw [Value.ofJson]
    by_cases signed : n.value < 2 ^ 63
    · rw [if_pos signed]
      rfl
    · rw [if_neg signed]
      rfl
  | bool | float | string => exact if_neg other

theorem wholeNumberFound {x : Binary64} {n : Int} :
    wholeNumber? x = some n ↔ x.reading.value? = some (n : ℚ) ∧ Room 8 n := by
  rw [wholeNumber?, Option.filter_eq_some_iff, x.wholeValue, decide_eq_true_iff]
  rfl

section
variable (integer : IntegerType s width)

include integer

theorem integerSends (n : Int) : Sends width (· = n) (ofInt n s) := by
  simp only [ofInt, integer.range]
  exact sendsFound (fun m => checkRoom) (fun m ok => by rw [ok]) fun e error => ⟨.range e, by rw [error]⟩

theorem ofFloatSends (x : Binary64) : Sends width (fun n => x.reading.value? = some (n : ℚ)) (ofFloat x s) := by
  simp only [ofFloat, integer.range]
  cases whole : wholeNumber? x with
  | some n =>
    have value := (wholeNumberFound.mp whole).1
    refine (integerSends integer n).congr fun m _ => ?_
    rw [value, Option.some.injEq]
    exact ⟨fun same => (Int.cast_injective same).symm, fun same => same ▸ rfl⟩
  | none =>
    refine (sendsNone _).congr fun n room => iff_of_false (fun value => ?_) id
    have found := wholeNumberFound.mpr ⟨value, integer.roomWithin room⟩
    rw [whole] at found
    cases found

theorem ofTextSends (t : Text) : Sends width (Integral.Spells (Text.trim t)) (ofText t s) := by
  have bound : ofText t s = readInteger width t := by cases integer <;> rfl
  have below : (Integral.Range.signed (8 * width)).low < 0 := by cases integer <;> decide
  have above : 0 ≤ (Integral.Range.signed (8 * width)).high := by cases integer <;> decide
  rw [bound, readInteger]
  exact sendsFound (fun n => by rw [Integral.readSpelled below above, signedRoom]) (fun n ok => by rw [ok])
    fun e error => ⟨.parsedInteger e, by rw [error]⟩

theorem plainSends {v : Value} (present : v ≠ .null) (plain : ∀ j, v ≠ .json j) :
    Sends width v.Denotes (scalar v s) := by
  cases v with
  | null => exact absurd rfl present
  | json j => exact absurd rfl (plain j)
  | bool b =>
    have refused : scalar (.bool b) s = .error (.mismatch "a boolean" s.entry.1) := by cases integer <;> rfl
    rw [refused]
    exact (sendsNone _).congr fun n _ => ⟨nofun, False.elim⟩
  | int i =>
    refine (integerSends integer i.toInt).congr fun n _ => ⟨fun denotes => ?_, fun same => same ▸ .int i⟩
    cases denotes
    rfl
  | float x =>
    refine (ofFloatSends integer x).congr fun n _ => ⟨fun denotes => ?_, .float⟩
    cases denotes with
    | float value => exact value
  | text t =>
    refine (ofTextSends integer t).congr fun n _ => ⟨fun denotes => ?_, .text⟩
    cases denotes with
    | text spelled => exact spelled

theorem scalarSends {v : Value} (present : v ≠ .null ∧ v ≠ .json .null) : Sends width v.Denotes (scalar v s) := by
  by_cases document : ∃ j, v = .json j
  · obtain ⟨j, rfl⟩ := document
    have some : j ≠ .null := fun null => present.2 (null ▸ rfl)
    by_cases single : j.isScalar
    · obtain ⟨filled, plain⟩ := Value.ofJsonPlain single some
      have other : ¬(s = .json ∨ s = .jsonb) := by cases integer <;> decide
      rw [scalarOfJson single some other]
      exact (plainSends integer filled plain).congr fun n _ => Value.denotesJson single
    · have refused : scalar (.json j) s = .error (.mismatch "a JSON document" s.entry.1) := by
        cases j with
        | array | object => cases integer <;> rfl
        | _ => exact absurd rfl single
      rw [refused]
      refine (sendsNone _).congr fun n _ => iff_of_false (fun denotes => ?_) id
      cases denotes with
      | json scalar => exact single scalar
  · exact plainSends integer present.1 fun j same => document ⟨j, same⟩

end

theorem integersSent (v : Value) {s : Scalar} {width : Nat} (integer : IntegerType s width) :
    (∀ bs, bind v (.scalar s) = .ok (some bs) ↔ ∃ n, v.Denotes n ∧ Room width n ∧ bs = Bytes.ofInt width n) ∧
    (bind v (.scalar s) = .ok none ↔ v = .null ∨ v = .json .null) ∧
    ((∃ fault, bind v (.scalar s) = .error fault) ↔
      v ≠ .null ∧ v ≠ .json .null ∧ ∀ n, v.Denotes n → ¬Room width n) := by
  rw [bind]
  by_cases null : v = .null ∨ v = .json .null
  · have absent : scalar v s = .ok none := by
      rcases null with rfl | rfl
      · rfl
      · cases integer <;> rfl
    rw [absent]
    refine ⟨fun bs => iff_of_false nofun ?_, iff_of_true rfl null, iff_of_false nofun ?_⟩
    · exact fun ⟨n, denotes, _⟩ => Value.denotesNull null n denotes
    · exact fun ⟨one, two, _⟩ => null.elim one two
  · obtain ⟨one, two⟩ := not_or.mp null
    have sends := scalarSends integer ⟨one, two⟩
    refine ⟨sends.number, iff_of_false sends.present null, ?_⟩
    constructor
    · rintro ⟨fault, refused⟩
      refine ⟨one, two, fun n denotes room => ?_⟩
      rw [(sends.number _).mpr ⟨n, denotes, room, rfl⟩] at refused
      cases refused
    · rintro ⟨-, -, without⟩
      cases result : scalar v s with
      | error fault => exact ⟨fault, rfl⟩
      | ok bs =>
        cases bs with
        | none => exact absurd result sends.present
        | some bs =>
          obtain ⟨n, denotes, room, -⟩ := (sends.number bs).mp result
          exact absurd room (without n denotes)

theorem endsOfIntegers :
    let least : Binary64 := ⟨0xC3E0000000000000#64⟩
    let behind : Binary64 := ⟨0x43E0000000000000#64⟩
    bind (.float least) (.scalar .int8) = .ok (some [128, 0, 0, 0, 0, 0, 0, 0]) ∧
      bind (.json (.string " +0032767\n")) (.scalar .int2) = .ok (some [127, 255]) ∧
      (∃ fault, bind (.float behind) (.scalar .int8) = .error fault) ∧
      bind (.json .null) (.scalar .int4) = .ok none := by
  intro least behind
  refine ⟨?_, ?_, ?_, ?_⟩
  · have value : least.reading.value? = some ((-2 ^ 63 : Int) : ℚ) := (least.wholeValue _).mp (by decide +kernel)
    exact ((integersSent _ .eight).1 _).mpr ⟨-2 ^ 63, .float value, by decide, by decide⟩
  · have spelled : Integral.Spells (Text.trim " +0032767\n") 32767 :=
      .plus (t := "0032767") (by decide) (List.all_eq_true.mp rfl) (by decide)
    exact ((integersSent _ .two).1 _).mpr ⟨32767, .json rfl (.text spelled), by decide, by decide⟩
  · refine (integersSent _ .eight).2.2.mpr ⟨nofun, nofun, fun n denotes room => ?_⟩
    cases denotes with
    | float value =>
      have found := (behind.wholeValue n).mpr value
      rw [show behind.whole? = some (2 ^ 63) by decide +kernel] at found
      cases found
      exact absurd room (by decide)
  · exact (integersSent _ .four).2.1.mpr (.inr rfl)

end Binding
end TableGateway
