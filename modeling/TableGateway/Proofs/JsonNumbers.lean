import TableGateway.Json.Printer
import TableGateway.Json.Reader
import TableGateway.Proofs.Scan

/-! Numbers that are printed in a document are read with the same digits, when the text behind them is a comma, a
closing bracket or the end. -/
namespace TableGateway

namespace Text

theorem ofNatHead {n : Nat} (positive : 0 < n) : ∃ c t, ofNat n = c :: t ∧ c ≠ '0' := by
  induction n using Nat.strongRecOn with
  | ind n ih =>
    rw [ofNat, Nat.toDigits_eq_if (by decide)]
    split
    case isTrue small =>
      have digit : ∀ d < 10, 0 < d → d.digitChar ≠ '0' := by decide
      exact ⟨n.digitChar, [], rfl, digit n small positive⟩
    case isFalse large =>
      obtain ⟨c, t, front, nonzero⟩ := ih (n / 10) (by omega) (by omega)
      exact ⟨c, t ++ [(n % 10).digitChar], congrArg (· ++ _) front, nonzero⟩

theorem ofDigitCharsGrows (digits : Text) (n : Nat) : n ≤ Nat.ofDigitChars 10 digits n := by
  rw [Nat.ofDigitChars_eq_ofDigitChars_zero]
  have := Nat.mul_le_mul_right n (Nat.pow_pos (n := digits.length) (show 0 < 10 by decide))
  omega

theorem toNatZeros (n k : Nat) : toNat (ofNat n ++ List.replicate k '0') = n * 10 ^ k := by
  have front : Nat.ofDigitChars 10 (ofNat n) 0 = n := toNatOfNat n
  rw [toNat, Nat.ofDigitChars_append, front, Nat.ofDigitChars_replicate_zero, Nat.mul_comm]

theorem toNatBehindZeros (k : Nat) (digits : Text) : toNat (List.replicate k '0' ++ digits) = toNat digits := by
  rw [toNat, Nat.ofDigitChars_append, Nat.ofDigitChars_replicate_zero, Nat.mul_zero, toNat]

end Text

namespace Json

structure Whole (digits : Text) : Prop where
  all : ∀ c ∈ digits, c.isDigit
  first : ∃ c t, digits = c :: t ∧ (c = '0' → t = [])

theorem wholeOfNat (n : Nat) : Whole (Text.ofNat n) := by
  refine ⟨fun c member => Text.ofNatDigits member, ?_⟩
  cases n with
  | zero => exact ⟨'0', [], rfl, fun _ => rfl⟩
  | succ n =>
    obtain ⟨c, t, digits, nonzero⟩ := Text.ofNatHead (Nat.succ_pos n)
    exact ⟨c, t, digits, fun zero => absurd zero nonzero⟩

def Stops (rest : Text) : Prop := ∀ c ∈ rest.head?, c = ',' ∨ c = ']' ∨ c = '\x7d'

theorem Stops.noDigit {rest : Text} (stops : Stops rest) : ∀ c ∈ rest.head?, ¬c.isDigit := by
  intro c member
  rcases stops c member with rfl | rfl | rfl <;> decide

namespace Reader

theorem absorbDigits {digits : Text} {n : Nat} (fits : Nat.ofDigitChars 10 digits n < 2 ^ 64) :
    absorb n digits = (Nat.ofDigitChars 10 digits n, 0) := by
  induction digits generalizing n with
  | nil => rfl
  | cons c digits ih =>
    have next : Nat.ofDigitChars 10 (c :: digits) n = Nat.ofDigitChars 10 digits (10 * n + Text.digitValue c) :=
      Nat.ofDigitChars_cons
    rw [next] at fits ⊢
    have grows := Text.ofDigitCharsGrows digits (10 * n + Text.digitValue c)
    rw [absorb, if_pos (Nat.lt_of_le_of_lt grows fits), ih fits]

theorem exponentDigitsRead {digits rest : Text} (all : ∀ c ∈ digits, c.isDigit) (stop : ∀ c ∈ rest.head?, ¬c.isDigit)
    {n : Nat} (fits : Nat.ofDigitChars 10 digits n < 2 ^ 31) :
    exponentDigits n (digits ++ rest) = .ok (Nat.ofDigitChars 10 digits n, rest) := by
  induction digits generalizing n with
  | nil =>
    cases rest with
    | nil => rfl
    | cons c rest =>
      have last : c.isDigit = false := by simpa using stop c
      simp [exponentDigits, last]
  | cons c digits ih =>
    have next : Nat.ofDigitChars 10 (c :: digits) n = Nat.ofDigitChars 10 digits (10 * n + Text.digitValue c) :=
      Nat.ofDigitChars_cons
    rw [next] at fits ⊢
    obtain ⟨digit, others⟩ := List.forall_mem_cons.mp all
    have grows := Text.ofDigitCharsGrows digits (10 * n + Text.digitValue c)
    rw [List.cons_append, exponentDigits, if_pos digit]
    simp only [if_pos (Nat.lt_of_le_of_lt grows fits), ih others fits]

theorem numberWhole {digits rest : Text} (whole : Whole digits) (stops : Stops rest)
    (fits : Text.toNat digits < 2 ^ 64) (negative : Bool) :
    number negative (digits ++ rest) =
      if !negative then .ok (.ofInt (Text.toNat digits), rest)
      else if Text.toNat digits = 0 ∨ 2 ^ 63 < Text.toNat digits then fraction true (Text.toNat digits) 0 rest
      else .ok (.ofInt (-Text.toNat digits), rest) := by
  have stop := stops.noDigit
  obtain ⟨c, t, first, alone⟩ := whole.first
  have split : Text.spanDigits (digits ++ rest) = (c :: t, rest) :=
    first ▸ Placeholder.spanDigitsAppend whole.all stop
  have absorbed : absorb 0 (c :: t) = (Text.toNat digits, 0) := by
    rw [← first]
    exact absorbDigits fits
  have ordinary : ¬(c = '0' ∧ t ≠ []) := fun both => both.2 (alone both.1)
  simp only [number, split, if_neg ordinary, absorbed]
  cases rest with
  | nil => simp
  | cons r rest =>
    rcases stops r rfl with rfl | rfl | rfl <;> simp

theorem numberPlaces {digits rest : Text} (whole : Whole digits) (places : Text) (all : ∀ c ∈ places, c.isDigit)
    (some : places ≠ []) (stop : ∀ c ∈ rest.head?, ¬c.isDigit) (fits : Text.toNat (digits ++ places) < 2 ^ 64)
    (negative : Bool) :
    number negative (digits ++ '.' :: (places ++ rest)) =
      afterDigits negative (Text.toNat (digits ++ places)) (-places.length) rest := by
  have total : Nat.ofDigitChars 10 places (Text.toNat digits) = Text.toNat (digits ++ places) :=
    (Nat.ofDigitChars_append 0).symm
  have front : Text.toNat digits < 2 ^ 64 :=
    Nat.lt_of_le_of_lt (total ▸ Text.ofDigitCharsGrows places (Text.toNat digits)) fits
  obtain ⟨c, t, first, alone⟩ := whole.first
  have split : Text.spanDigits (digits ++ '.' :: (places ++ rest)) = (c :: t, '.' :: (places ++ rest)) :=
    first ▸ Placeholder.spanDigitsAppend whole.all (by simp)
  have behind : Text.spanDigits (places ++ rest) = (places, rest) := Placeholder.spanDigitsAppend all stop
  have absorbed : absorb 0 (c :: t) = (Text.toNat digits, 0) := by
    rw [← first]
    exact absorbDigits front
  have further : absorb (Text.toNat digits) places = (Text.toNat (digits ++ places), 0) := by
    rw [absorbDigits (total ▸ fits), total]
  have ordinary : ¬(c = '0' ∧ t ≠ []) := fun both => both.2 (alone both.1)
  simp only [number, split, if_neg ordinary, absorbed, behind]
  cases places with
  | nil => exact absurd rfl some
  | cons p places => simp [further]

theorem numberExponent {digits : Text} (whole : Whole digits) (fits : Text.toNat digits < 2 ^ 64)
    (negative : Bool) (rest : Text) :
    number negative (digits ++ 'e' :: rest) = afterDigits negative (Text.toNat digits) 0 ('e' :: rest) := by
  obtain ⟨c, t, first, alone⟩ := whole.first
  have split : Text.spanDigits (digits ++ 'e' :: rest) = (c :: t, 'e' :: rest) :=
    first ▸ Placeholder.spanDigitsAppend whole.all (by simp)
  have absorbed : absorb 0 (c :: t) = (Text.toNat digits, 0) := by
    rw [← first]
    exact absorbDigits fits
  have ordinary : ¬(c = '0' ∧ t ≠ []) := fun both => both.2 (alone both.1)
  simp [number, split, if_neg ordinary, absorbed]

theorem afterDigitsStops {rest : Text} (stops : Stops rest) (negative : Bool) (significand : Nat) (point : Int) :
    afterDigits negative significand point rest = fraction negative significand point rest := by
  unfold afterDigits
  split
  case h_1 => simpa using stops 'e' rfl
  case h_2 => simpa using stops 'E' rfl
  case h_3 => rfl

def signed (e : Int) : Text := (if 0 ≤ e then ['+'] else []) ++ Text.ofInt e

theorem afterDigitsExponent {rest : Text} (stops : Stops rest) {e : Int} (fits : e.natAbs < 2 ^ 31) (negative : Bool)
    (significand : Nat) (point : Int) :
    afterDigits negative significand point ('e' :: (signed e ++ rest)) =
      fraction negative significand (point + e) rest := by
  have stop := stops.noDigit
  have read (n : Nat) (small : n < 2 ^ 31) : exponentDigits 0 (Text.ofNat n ++ rest) = .ok (n, rest) := by
    have value : Nat.ofDigitChars 10 (Text.ofNat n) 0 = n := Text.toNatOfNat n
    rw [exponentDigitsRead (fun c member => Text.ofNatDigits member) stop (by rw [value]; exact small), value]
  have digit (n : Nat) : ∃ c t, Text.ofNat n = c :: t ∧ c.isDigit := by
    obtain ⟨c, t, digits, -⟩ := (wholeOfNat n).first
    exact ⟨c, t, digits, (wholeOfNat n).all c (by simp [digits])⟩
  cases e with
  | ofNat n =>
    obtain ⟨c, t, digits, digit⟩ := digit n
    have number := read n (by simpa using fits)
    rw [digits, List.cons_append] at number
    simp [afterDigits, exponent, signed, Text.ofInt, digits, digit, number]
  | negSucc n =>
    obtain ⟨c, t, digits, digit⟩ := digit (n + 1)
    have number := read (n + 1) (by omega)
    rw [digits, List.cons_append] at number
    have down : point - ((n + 1 : Nat) : Int) = point + Int.negSucc n := by omega
    simp [afterDigits, exponent, signed, Text.ofInt, digits, digit, number, ← down]

def taken (x : Scientific) : Scientific :=
  if FloatStyle.document.positional (FloatStyle.leading x) ∧ 0 ≤ x.exponent then
    ⟨x.digits * 10 ^ (x.exponent.toNat + 1), -1⟩
  else x

theorem wholeZeros {n : Nat} (positive : 0 < n) (k : Nat) : Whole (Text.ofNat n ++ List.replicate k '0') := by
  obtain ⟨c, t, digits, nonzero⟩ := Text.ofNatHead positive
  refine ⟨fun d member => ?_, c, t ++ List.replicate k '0', by rw [digits]; rfl, fun zero => absurd zero nonzero⟩
  rcases List.mem_append.mp member with digit | zero
  · exact Text.ofNatDigits digit
  · rw [List.eq_of_mem_replicate zero]
    rfl

theorem wholeTake {n : Nat} (positive : 0 < n) {k : Nat} (some : 0 < k) : Whole ((Text.ofNat n).take k) := by
  obtain ⟨c, t, digits, nonzero⟩ := Text.ofNatHead positive
  refine ⟨fun d member => Text.ofNatDigits (List.mem_of_mem_take member), c, t.take (k - 1), ?_,
    fun zero => absurd zero nonzero⟩
  obtain ⟨k, rfl⟩ := Nat.exists_eq_succ_of_ne_zero (Nat.ne_of_gt some)
  rw [digits]
  rfl

theorem plainFew {x : Scientific} (plain : FloatStyle.leading x ≤ 15) (whole : 0 ≤ x.exponent) :
    x.digits * 10 ^ (x.exponent.toNat + 1) ≤ 10 ^ 17 := by
  have below : x.digits < 10 ^ (Text.ofNat x.digits).length :=
    (Nat.length_toDigits_le_iff (by decide) Nat.length_toDigits_pos).mp (Nat.le_refl _)
  have few : (Text.ofNat x.digits).length + (x.exponent.toNat + 1) ≤ 17 := by
    unfold FloatStyle.leading at plain
    omega
  calc x.digits * 10 ^ (x.exponent.toNat + 1)
      ≤ 10 ^ (Text.ofNat x.digits).length * 10 ^ (x.exponent.toNat + 1) :=
        Nat.mul_le_mul_right _ (Nat.le_of_lt below)
    _ = 10 ^ ((Text.ofNat x.digits).length + (x.exponent.toNat + 1)) := (Nat.pow_add ..).symm
    _ ≤ 10 ^ 17 := Nat.pow_le_pow_right (by decide) few

theorem wholeRead {x : Scientific} (positive : 0 < x.digits) (plain : FloatStyle.leading x ≤ 15)
    (whole : 0 ≤ x.exponent) {rest : Text} (stops : Stops rest) (negative : Bool) :
    number negative (Text.ofNat x.digits ++ List.replicate x.exponent.toNat '0' ++ ['.', '0'] ++ rest) =
      fraction negative (x.digits * 10 ^ (x.exponent.toNat + 1)) (-1) rest := by
  have stop := stops.noDigit
  have total : Text.toNat (Text.ofNat x.digits ++ List.replicate x.exponent.toNat '0' ++ ['0']) =
      x.digits * 10 ^ (x.exponent.toNat + 1) := by
    rw [List.append_assoc, ← List.replicate_succ', Text.toNatZeros]
  have small : x.digits * 10 ^ (x.exponent.toNat + 1) < 2 ^ 64 :=
    Nat.lt_of_le_of_lt (plainFew plain whole) (by decide)
  have read := numberPlaces (wholeZeros positive x.exponent.toNat) ['0'] (by simp) (by simp) stop
    (total ▸ small) negative
  rw [total] at read
  rw [List.append_assoc]
  exact read.trans (afterDigitsStops stops ..)

theorem pointRead {n : Nat} (positive : 0 < n) (fits : n < 2 ^ 64) {k : Nat} (some : 0 < k)
    (more : k < (Text.ofNat n).length) {rest : Text} (stop : ∀ c ∈ rest.head?, ¬c.isDigit) (negative : Bool) :
    number negative ((Text.ofNat n).take k ++ '.' :: ((Text.ofNat n).drop k ++ rest)) =
      afterDigits negative n (-((Text.ofNat n).length - k : Nat)) rest := by
  have total : Text.toNat ((Text.ofNat n).take k ++ (Text.ofNat n).drop k) = n := by
    rw [List.take_append_drop, Text.toNatOfNat]
  have read := numberPlaces (wholeTake positive some) ((Text.ofNat n).drop k)
    (fun c member => Text.ofNatDigits (List.mem_of_mem_drop member))
    (List.ne_nil_of_length_pos (by rw [List.length_drop]; omega)) stop (by rw [total]; exact fits) negative
  rwa [total, List.length_drop] at read

theorem smallRead {n : Nat} (fits : n < 2 ^ 64) (k : Nat) {rest : Text} (stops : Stops rest) (negative : Bool) :
    number negative (['0'] ++ '.' :: (List.replicate k '0' ++ Text.ofNat n ++ rest)) =
      fraction negative n (-(k + (Text.ofNat n).length : Nat)) rest := by
  have stop := stops.noDigit
  have total : Text.toNat (['0'] ++ (List.replicate k '0' ++ Text.ofNat n)) = n :=
    (Text.toNatBehindZeros (k + 1) (Text.ofNat n)).trans (Text.toNatOfNat n)
  have all : ∀ c ∈ List.replicate k '0' ++ Text.ofNat n, c.isDigit := fun c member => by
    rcases List.mem_append.mp member with zero | digit
    · rw [List.eq_of_mem_replicate zero]
      rfl
    · exact Text.ofNatDigits digit
  have zero : Whole ['0'] := wholeOfNat 0
  have read := numberPlaces zero _ all (by simp [Text.ofNatNotEmpty]) stop (by rw [total]; exact fits) negative
  rw [total, List.length_append, List.length_replicate] at read
  exact read.trans (afterDigitsStops stops ..)

theorem powerRead {n : Nat} (positive : 0 < n) (fits : n < 2 ^ 64) {e : Int} (near : e.natAbs < 2 ^ 31)
    {rest : Text} (stops : Stops rest) (negative : Bool) :
    number negative ((Text.ofNat n).take 1 ++ (if ((Text.ofNat n).drop 1).isEmpty then [] else
        '.' :: (Text.ofNat n).drop 1) ++ 'e' :: (if 0 ≤ e then ['+'] else []) ++ Text.ofInt e ++ rest) =
      fraction negative n (e - ((Text.ofNat n).length - 1 : Nat)) rest := by
  have power (point : Int) := afterDigitsExponent stops near negative n point
  obtain ⟨c, t, digits, -⟩ := Text.ofNatHead positive
  have length : (Text.ofNat n).length = t.length + 1 := congrArg List.length digits
  cases t with
  | nil =>
    have read := numberExponent (wholeOfNat n) (by rw [Text.toNatOfNat]; exact fits) negative (signed e ++ rest)
    rw [Text.toNatOfNat, power, Int.zero_add] at read
    rw [length]
    simpa [digits, signed] using read
  | cons p t =>
    have behind : ∀ c ∈ ('e' :: (signed e ++ rest)).head?, ¬c.isDigit := by simp
    have read := pointRead positive fits (k := 1) (by decide) (by simp [length]) behind negative
    rw [power, Int.add_comm, ← Int.sub_eq_add_neg] at read
    simpa [digits, signed] using read

theorem layoutRead {x : Scientific} (positive : 0 < x.digits) (fits : x.digits < 2 ^ 64)
    (near : x.exponent.natAbs < 2 ^ 30) {rest : Text} (stops : Stops rest) (negative : Bool) :
    number negative (FloatStyle.document.layout x ++ rest) =
      fraction negative (taken x).digits (taken x).exponent rest := by
  have stop := stops.noDigit
  have all : ∀ c ∈ Text.ofNat x.digits, c.isDigit := fun c member => Text.ofNatDigits member
  have short : (Text.ofNat x.digits).length ≤ 20 :=
    (Nat.length_toDigits_le_iff (by decide) (by decide)).mpr (Nat.lt_trans fits (by decide))
  have some : 0 < (Text.ofNat x.digits).length := Nat.length_toDigits_pos
  have lead : FloatStyle.leading x = (Text.ofNat x.digits).length + x.exponent - 1 := rfl
  unfold FloatStyle.layout taken
  by_cases plain : FloatStyle.document.positional (FloatStyle.leading x)
  · by_cases whole : 0 ≤ x.exponent
    · rw [if_pos plain, if_pos whole, if_pos ⟨plain, whole⟩]
      exact wholeRead positive (of_decide_eq_true plain).2 whole stops negative
    · have other : ¬(FloatStyle.document.positional (FloatStyle.leading x) ∧ 0 ≤ x.exponent) :=
        fun both => whole both.2
      rw [if_pos plain, if_neg whole, if_neg other]
      by_cases inside : 0 ≤ FloatStyle.leading x
      · have read := pointRead positive fits (k := (FloatStyle.leading x).toNat + 1) (by omega) (by omega) stop
          negative
        have places : -(((Text.ofNat x.digits).length - ((FloatStyle.leading x).toNat + 1) : Nat) : Int) =
            x.exponent := by omega
        rw [places] at read
        rw [if_pos inside, List.append_assoc]
        exact read.trans (afterDigitsStops stops ..)
      · have read := smallRead fits (-FloatStyle.leading x - 1).toNat stops negative
        have places : -(((-FloatStyle.leading x - 1).toNat + (Text.ofNat x.digits).length : Nat) : Int) =
            x.exponent := by omega
        rw [places] at read
        rw [if_neg inside]
        exact read
  · have other : ¬(FloatStyle.document.positional (FloatStyle.leading x) ∧ 0 ≤ x.exponent) :=
      fun both => plain both.1
    have read := powerRead positive fits (e := FloatStyle.leading x) (by omega) stops negative
    have places : FloatStyle.leading x - ((Text.ofNat x.digits).length - 1 : Nat) = x.exponent := by omega
    rw [places] at read
    rw [if_neg plain, if_neg other]
    exact read

end Reader
end Json
end TableGateway
