import Mathlib.Data.Nat.Digits.Defs
import TableGateway.Calendar.Format
import TableGateway.Proofs.Characters
import TableGateway.Proofs.DayNumbers
import TableGateway.Proofs.JsonNumbers

/-! Printed dates and moments read by the formats: each part of the text by its item, and what comes behind it left
to the items that come behind. -/
namespace TableGateway
namespace Text

theorem paddedDigits {width n : Nat} {c : Char} (member : c ∈ padded width n) : c.isDigit := by
  rcases List.mem_append.mp member with zero | digit
  · rw [List.eq_of_mem_replicate zero]
    rfl
  · exact ofNatDigits digit

theorem toNatPadded (width n : Nat) : toNat (padded width n) = n := by
  rw [padded, toNatBehindZeros, toNatOfNat]

theorem paddedLength {width n : Nat} (some : 0 < width) (fits : n < 10 ^ width) : (padded width n).length = width := by
  have short : (ofNat n).length ≤ width := Nat.toDigits_length 10 n width some fits
  simp [padded]
  omega

theorem paddedHead (width n : Nat) : ∃ d t, padded width n = d :: t ∧ d.isDigit := by
  cases same : padded width n with
  | nil => exact absurd (List.append_eq_nil_iff.mp same).2 (ofNatNotEmpty n)
  | cons d t => exact ⟨d, t, rfl, paddedDigits (by rw [same]; exact List.mem_cons_self)⟩

theorem digitSolid {c : Char} (digit : c.isDigit) : ¬ isBlank c := by
  have within := digitWithin digit
  simp [isBlank]
  omega

theorem trimStartSolid {c : Char} (solid : ¬ isBlank c) (t : Text) : trimStart (c :: t) = c :: t := by
  rw [trimStart, List.dropWhile_cons_of_neg solid]

theorem dropSolid {t : Text} (solid : ∀ c ∈ t, ¬ isBlank c) : t.dropWhile isBlank = t := by
  cases t with
  | nil => rfl
  | cons c t => exact List.dropWhile_cons_of_neg (solid c List.mem_cons_self)

theorem trimSolid {t : Text} (solid : ∀ c ∈ t, ¬ isBlank c) : trim t = t := by
  have back : ∀ c ∈ t.reverse, ¬ isBlank c := fun c member => solid c (List.mem_reverse.mp member)
  rw [trim, trimStart, dropSolid solid, trimEnd, dropSolid back, List.reverse_reverse]

end Text

namespace DateFormat

theorem itemsNext {w v : WrittenDate} {item : DateItem} {rest : DateFormat} {t u : Text}
    (taken : item? w t item = some (v, u)) : items? w (item :: rest) t = items? v rest u := by
  rw [items?, taken]
  rfl

theorem numberRead {most : Nat} {digits tail rest : Text} (all : ∀ c ∈ digits, c.isDigit) (filled : digits ≠ [])
    (taken : (digits ++ rest).take most = digits ++ tail) (stop : ∀ c ∈ tail.head?, ¬ c.isDigit) :
    number? most (digits ++ rest) = some (Text.toNat digits, rest) := by
  have kept : (digits ++ tail).takeWhile Char.isDigit = digits :=
    congrArg Prod.fst (Placeholder.spanDigitsAppend all stop)
  simp [number?, taken, kept, filled]

structure Digits (part : DatePart) (n : Nat) (t : Text) : Prop where
  all : ∀ c ∈ t, c.isDigit
  length : t.length = width part
  value : Text.toNat t = n

theorem twoDigits (part : DatePart) (other : part ≠ .year) {n : Nat} (fits : n < 100) :
    Digits part n (Text.padded 2 n) where
  all _ member := Text.paddedDigits member
  length := by rw [width, if_neg other, Text.paddedLength (by decide) fits]
  value := Text.toNatPadded 2 n

theorem fourDigits {n : Nat} (fits : n < 10000) : Digits .year n (Text.padded 4 n) where
  all _ member := Text.paddedDigits member
  length := Text.paddedLength (by decide) fits
  value := Text.toNatPadded 4 n

theorem fixedRead {part : DatePart} {n : Nat} {t : Text} (digits : Digits part n t) (rest : Text) :
    fixed? part (t ++ rest) = some ((n : Int), rest) := by
  have taken : (t ++ rest).take (width part) = t := List.take_left' digits.length
  have left : (t ++ rest).drop (width part) = rest := List.drop_left' digits.length
  have all : t.all Char.isDigit := List.all_eq_true.mpr digits.all
  simp [fixed?, taken, left, all, digits.length, digits.value]

theorem looseRead {part : DatePart} {n : Nat} {t : Text} (digits : Digits part n t) (rest : Text) :
    loose? part (t ++ rest) = some ((n : Int), rest) := by
  have some : 0 < t.length := by
    rw [digits.length, width]
    split <;> decide
  have taken : (t ++ rest).take (width part) = t ++ [] := by
    rw [List.take_left' digits.length, List.append_nil]
  have read := numberRead digits.all (List.ne_nil_of_length_pos some) taken (by simp)
  obtain ⟨d, u, rfl⟩ := List.exists_cons_of_length_pos some
  have digit : d.isDigit := digits.all d List.mem_cons_self
  have unsigned : d ≠ '-' ∧ d ≠ '+' := ⟨by rintro rfl; contradiction, by rintro rfl; contradiction⟩
  rw [List.cons_append] at read ⊢
  simp only [loose?, Text.trimStartSolid (Text.digitSolid digit)]
  cases part <;> simp [unsigned, read, digits.value]

def Numeral (item : DatePart → DateItem) : Prop := item = .loose ∨ item = .exact

variable {item : DatePart → DateItem} {w : WrittenDate} {rest : Text}

theorem numeralRead (numeral : Numeral item) {part : DatePart} {n : Nat} {t : Text} (digits : Digits part n t) :
    item? w (t ++ rest) (item part) = some (set w part n, rest) := by
  rcases numeral with rfl | rfl
  · rw [item?, looseRead digits]
    rfl
  · rw [item?, fixedRead digits]
    rfl

theorem markRead {c : Char} {choices : Text} (listed : c ∈ choices) :
    item? w (c :: rest) (.mark choices) = some (w, rest) := if_pos listed

theorem signedYearRead {year : Int} (signed : ¬ (0 ≤ year ∧ year ≤ 9999)) :
    item? w (Date.printYear year ++ '-' :: rest) (.loose .year) = some (set w .year year, '-' :: rest) := by
  have all : ∀ c ∈ Text.padded 4 year.natAbs, c.isDigit := fun c member => Text.paddedDigits member
  have filled : Text.padded 4 year.natAbs ≠ [] := by
    obtain ⟨d, t, same, -⟩ := Text.paddedHead 4 year.natAbs
    simp [same]
  have stop : ∀ c ∈ ('-' :: rest).head?, ¬ c.isDigit := by simp
  have read := numberRead all filled List.take_length stop
  rw [Text.toNatPadded] at read
  have minus := Text.trimStartSolid (show ¬ isBlank '-' by decide)
  have plus := Text.trimStartSolid (show ¬ isBlank '+' by decide)
  rw [Date.printYear, if_neg signed]
  by_cases negative : year < 0
  · have same : -(year.natAbs : Int) = year := by omega
    simp only [if_pos negative, List.cons_append, item?, loose?, minus, read, Option.map_some, same]
  · have same : (year.natAbs : Int) = year := by omega
    simp only [if_neg negative, List.cons_append, item?, loose?, plus, read, Option.map_some, same]

theorem signedYearRefused {year : Int} (signed : ¬ (0 ≤ year ∧ year ≤ 9999)) (behind : DateFormat) :
    items? w (.exact .year :: behind) (Date.printYear year ++ rest) = none := by
  have minus : '-'.isDigit = false := by decide
  have plus : '+'.isDigit = false := by decide
  have refused : fixed? .year (Date.printYear year ++ rest) = none := by
    rw [Date.printYear, if_neg signed]
    split <;> simp [fixed?, width, minus, plus]
  simp [items?, item?, refused]

def Readable (item : DatePart → DateItem) (year : Int) : Prop := item = .loose ∨ 0 ≤ year ∧ year ≤ 9999

theorem yearRead (numeral : Numeral item) {year : Int} (readable : Readable item year) :
    item? w (Date.printYear year ++ '-' :: rest) (item .year) = some (set w .year year, '-' :: rest) := by
  by_cases short : 0 ≤ year ∧ year ≤ 9999
  · have same : (year.toNat : Int) = year := Int.toNat_of_nonneg short.1
    rw [Date.printYear, if_pos short, numeralRead numeral (fourDigits (by omega)), same]
  · obtain rfl := readable.resolve_right short
    exact signedYearRead short

def dateItems (item : DatePart → DateItem) (behind : DateFormat) : DateFormat :=
  item .year :: .mark ['-'] :: item .month :: .mark ['-'] :: item .day :: behind

def clockItems (item : DatePart → DateItem) (behind : DateFormat) : DateFormat :=
  item .hour :: .mark [':'] :: item .minute :: .mark [':'] :: item .second :: .fraction :: behind

theorem dateRead (numeral : Numeral item) {d : Date} (readable : Readable item d.year) (bounded : d.Bounded)
    (behind : DateFormat) :
    items? w (dateItems item behind) (d.print ++ rest) =
      items? { w with year := d.year, month := d.month, day := d.day } behind rest := by
  have dash : '-' ∈ ['-'] := List.mem_singleton_self '-'
  simp only [Date.print, List.append_assoc, List.cons_append, dateItems]
  rw [itemsNext (yearRead numeral readable), itemsNext (markRead dash),
    itemsNext (numeralRead numeral (twoDigits .month (by decide) bounded.month)), itemsNext (markRead dash),
    itemsNext (numeralRead numeral (twoDigits .day (by decide) bounded.day))]
  rfl

def Unfractioned (t : Text) : Prop := ∀ c ∈ t.head?, ¬ c.isDigit ∧ c ≠ '.'

theorem fractionDigits {width n : Nat} (some : 0 < width) (most : width ≤ 9) (fits : n < 10 ^ width)
    (ends : Unfractioned rest) :
    item? w ('.' :: Text.padded width n ++ rest) .fraction =
      .some ({ w with nano := n * 10 ^ (9 - width) }, rest) := by
  have all : ∀ c ∈ Text.padded width n, c.isDigit := fun c member => Text.paddedDigits member
  have length := Text.paddedLength some fits
  have kept : (Text.padded width n ++ rest).takeWhile Char.isDigit = Text.padded width n :=
    congrArg Prod.fst (Placeholder.spanDigitsAppend all fun c member => (ends c member).1)
  have whole : (Text.padded width n).take 9 = Text.padded width n := List.take_of_length_le (by omega)
  have filled : Text.padded width n ≠ [] := List.ne_nil_of_length_pos (by omega)
  simp [item?, nanos?, kept, whole, filled, length, Text.toNatPadded]

theorem fractionNone (ends : Unfractioned rest) : item? w rest .fraction = some (w, rest) := by
  cases rest with
  | nil => rfl
  | cons c rest =>
    have other : c ≠ '.' := (ends c rfl).2
    simp [item?, other]

theorem fractionRead (unset : w.nano = 0) {nano : Nat} (below : nano < 1000000000) (ends : Unfractioned rest) :
    item? w (Clock.printFraction nano ++ rest) .fraction = some ({ w with nano := nano }, rest) := by
  unfold Clock.printFraction
  by_cases zero : nano = 0
  · subst zero
    rw [if_pos rfl, List.nil_append, fractionNone ends, ← unset]
  by_cases millis : nano % 1000000 = 0
  · have same : nano / 1000000 * 10 ^ (9 - 3) = nano := by omega
    rw [if_neg zero, if_pos millis, fractionDigits (by decide) (by decide) (by omega) ends, same]
  by_cases micros : nano % 1000 = 0
  · have same : nano / 1000 * 10 ^ (9 - 6) = nano := by omega
    rw [if_neg zero, if_neg millis, if_pos micros, fractionDigits (by decide) (by decide) (by omega) ends, same]
  · have same : nano * 10 ^ (9 - 9) = nano := Nat.mul_one nano
    rw [if_neg zero, if_neg millis, if_neg micros, fractionDigits (by decide) (by decide) below ends, same]

theorem clockRead (numeral : Numeral item) {c : Clock} (within : c.Within) (unset : w.nano = 0)
    (ends : Unfractioned rest) (behind : DateFormat) :
    items? w (clockItems item behind) (c.print ++ rest) =
      items? { w with
        hour := c.second / 3600, minute := c.second / 60 % 60, second := c.second % 60 + c.nano / 1000000000,
        nano := c.nano % 1000000000 } behind rest := by
  have colon : ':' ∈ [':'] := List.mem_singleton_self ':'
  let v : WrittenDate :=
    { w with
      hour := c.second / 3600, minute := c.second / 60 % 60, second := c.second % 60 + c.nano / 1000000000 }
  have fraction := fractionRead (show v.nano = 0 from unset) (Nat.mod_lt c.nano (by decide)) ends
  have hours : c.second / 3600 < 100 := by
    have := within.second
    omega
  have minutes : c.second / 60 % 60 < 100 := by omega
  have seconds : c.second % 60 + c.nano / 1000000000 < 100 := by
    have := within.nano
    omega
  simp only [Clock.print, List.append_assoc, List.cons_append, clockItems]
  rw [itemsNext (numeralRead numeral (twoDigits .hour (by decide) hours)), itemsNext (markRead colon),
    itemsNext (numeralRead numeral (twoDigits .minute (by decide) minutes)), itemsNext (markRead colon),
    itemsNext (numeralRead numeral (twoDigits .second (by decide) seconds))]
  exact itemsNext fraction

end DateFormat

namespace WrittenDate

def ofStamp (s : Stamp) : WrittenDate where
  year := (Date.ofDay s.day).year
  month := (Date.ofDay s.day).month
  day := (Date.ofDay s.day).day
  hour := s.clock.second / 3600
  minute := s.clock.second / 60 % 60
  second := s.clock.second % 60 + s.clock.nano / 1000000000
  nano := s.clock.nano % 1000000000

theorem clockOfStamp {s : Stamp} (within : s.clock.Within) : (ofStamp s).clock? = some s.clock.settled := by
  obtain ⟨day, second, nano⟩ := s
  obtain ⟨short, leap⟩ := within
  simp only at short leap
  have parts : second / 3600 < 24 ∧ second / 60 % 60 < 60 ∧ second % 60 + nano / 1000000000 ≤ 60 := by omega
  rw [clock?, ofStamp, if_pos parts, Clock.settled]
  simp only
  split
  · have last : min (second % 60 + nano / 1000000000) 59 = 59 := by omega
    have time : second / 3600 * 3600 + second / 60 % 60 * 60 + 59 = second := by omega
    have rest : nano % 1000000000 + (second % 60 + nano / 1000000000 - 59) * 1000000000 = nano := by omega
    rw [last, time, rest]
  · have kept : min (second % 60 + nano / 1000000000) 59 = second % 60 + nano / 1000000000 := by omega
    have time : second / 3600 * 3600 + second / 60 % 60 * 60 + (second % 60 + nano / 1000000000) =
      second + nano / 1000000000 := by omega
    rw [kept, time, Nat.sub_self, Nat.zero_mul, Nat.add_zero]

theorem stampOfStamp {s : Stamp} (valid : (Date.ofDay s.day).valid) (within : s.clock.Within) :
    (ofStamp s).stamp? = some s.settled := by
  have date : (ofStamp s).date? = some (Date.ofDay s.day) := if_pos valid
  simp [stamp?, date, clockOfStamp within, Date.toDayOfDay, Stamp.settled]

theorem universalOfStamp {s : Stamp} (valid : (Date.ofDay s.day).valid) (within : s.clock.Within) :
    (ofStamp s).universal? = some s.settled := by
  have second := within.settled
  have day : (s.day * 86400 + s.clock.settled.second) / 86400 = s.day := by omega
  have left : ((s.day * 86400 + s.clock.settled.second) % 86400).toNat = s.clock.settled.second := by omega
  have found : Date.ofDay? s.day = some (Date.ofDay s.day) := if_pos valid
  have unmoved : s.settled.earlier? 0 = some s.settled := by
    simp only [Stamp.earlier?, Stamp.settled, Int.sub_zero, day, left, found, Option.map_some]
  have near : (ofStamp s).offset.natAbs < 86400 := show Int.natAbs 0 < 86400 by decide
  simp only [universal?, stampOfStamp valid within, Option.bind_eq_bind, Option.bind_some, if_pos near]
  exact unmoved

end WrittenDate

namespace DateFormat

variable {item : DatePart → DateItem} {rest : Text}

theorem stampRead (numeral : Numeral item) {s : Stamp} (valid : (Date.ofDay s.day).valid) (within : s.clock.Within)
    (readable : Readable item (Date.ofDay s.day).year) {marks : Text} (mark : 'T' ∈ marks) (ends : Unfractioned rest)
    (behind : DateFormat) :
    items? {} (dateItems item (.mark marks :: clockItems item behind)) (s.print ++ rest) =
      items? (.ofStamp s) behind rest := by
  simp only [Stamp.print, List.append_assoc, List.cons_append]
  rw [dateRead numeral readable (Date.validBounded valid), itemsNext (markRead mark), clockRead numeral within rfl ends]
  rfl

theorem offsetRead {w : WrittenDate} {item : DateItem} (offset : item = .looseOffset ∨ item = .exactOffset) :
    items? w [item] "+00:00".toList = some { w with offset := 0 } := by
  rcases offset with rfl | rfl <;> rfl

theorem universalRead (numeral : Numeral item) {s : Stamp} (valid : (Date.ofDay s.day).valid)
    (within : s.clock.Within) (readable : Readable item (Date.ofDay s.day).year) {marks : Text} (mark : 'T' ∈ marks)
    {last : DateItem} (offset : last = .looseOffset ∨ last = .exactOffset) :
    items? {} (dateItems item (.mark marks :: clockItems item [last])) s.printUniversal = some (.ofStamp s) := by
  have ends : Unfractioned "+00:00".toList := by
    intro c member
    cases member
    decide
  exact (stampRead numeral valid within readable mark ends [last]).trans (offsetRead offset)

end DateFormat
end TableGateway
