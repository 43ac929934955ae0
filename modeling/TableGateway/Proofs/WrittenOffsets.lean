import TableGateway.Binding
import TableGateway.Proofs.DateItems

/-! Texts that tell a moment. The offset of such a text is what stands behind its time of day; a text with an offset is
not read without one, so the order in which the formats are tried does not matter, and its wall time and the moment
it means are as far from each other as the offset says. -/
namespace TableGateway
namespace Text

theorem toNatCons (c : Char) (digits : Text) :
    toNat (c :: digits) = 10 ^ digits.length * digitValue c + toNat digits := by
  rw [toNat, Nat.ofDigitChars_cons, Nat.ofDigitChars_eq_ofDigitChars_zero, Nat.mul_zero, Nat.zero_add]
  rfl

theorem toNatBelow {digits : Text} (all : ∀ c ∈ digits, c.isDigit) : toNat digits < 10 ^ digits.length := by
  induction digits with
  | nil => decide
  | cons c digits ih =>
    obtain ⟨digit, rest⟩ := List.forall_mem_cons.mp all
    have within := digitWithin digit
    have zero : '0'.toNat = 48 := rfl
    have value : digitValue c ≤ 9 := by
      rw [digitValue]
      omega
    have scaled := Nat.mul_le_mul_left (10 ^ digits.length) value
    have below := ih rest
    rw [toNatCons, List.length_cons, Nat.pow_succ]
    omega

theorem toNatZero {digits : Text} (all : ∀ c ∈ digits, c.isDigit) : toNat digits = 0 ↔ ∀ c ∈ digits, c = '0' := by
  induction digits with
  | nil => simp [toNat]
  | cons c digits ih =>
    obtain ⟨digit, rest⟩ := List.forall_mem_cons.mp all
    have within := digitWithin digit
    have zero : '0'.toNat = 48 := rfl
    have value : digitValue c = 0 ↔ c = '0' := by
      rw [← Char.toNat_inj, digitValue]
      omega
    rw [toNatCons, List.forall_mem_cons, Nat.add_eq_zero_iff, Nat.mul_eq_zero, value, ih rest]
    simp

end Text

namespace DateFormat

theorem nanosBelow {digits : Text} (all : ∀ c ∈ digits, c.isDigit) : nanosOf digits < 1000000000 := by
  have kept : ∀ c ∈ digits.take 9, c.isDigit := fun c member => all c (List.mem_of_mem_take member)
  have length : (digits.take 9).length ≤ 9 := List.length_take_le 9 digits
  calc nanosOf digits
      < 10 ^ (digits.take 9).length * 10 ^ (9 - (digits.take 9).length) :=
        Nat.mul_lt_mul_of_pos_right (Text.toNatBelow kept) (Nat.pow_pos (by decide))
    _ = 10 ^ 9 := by rw [← Nat.pow_add, Nat.add_sub_cancel' length]

theorem nanosFine {digits : Text} (all : ∀ c ∈ digits, c.isDigit) :
    nanosOf digits % 1000 = 0 ↔ ∀ c ∈ (digits.take 9).drop 6, c = '0' := by
  have length : (digits.take 9).length ≤ 9 := List.length_take_le 9 digits
  have kept : ∀ c ∈ digits.take 9, c.isDigit := fun c member => all c (List.mem_of_mem_take member)
  unfold nanosOf
  generalize digits.take 9 = digits at *
  by_cases short : digits.length ≤ 6
  · have none : digits.drop 6 = [] := List.drop_eq_nil_of_le short
    have scale : 9 - digits.length = 6 - digits.length + 3 := by omega
    rw [none, scale, Nat.pow_add, ← Nat.mul_assoc, Nat.mul_mod_left]
    simp
  · have back : ∀ c ∈ digits.drop 6, c.isDigit := fun c member => kept c (List.mem_of_mem_drop member)
    have below := Text.toNatBelow back
    have whole : Text.toNat digits =
        10 ^ (digits.drop 6).length * Text.toNat (digits.take 6) + Text.toNat (digits.drop 6) := by
      conv_lhs => rw [← List.take_append_drop 6 digits]
      rw [Text.toNat, Nat.ofDigitChars_append, Nat.ofDigitChars_eq_ofDigitChars_zero]
      rfl
    rw [← Text.toNatZero back, whole]
    rw [List.length_drop] at below ⊢
    obtain seven | eight | nine : digits.length = 7 ∨ digits.length = 8 ∨ digits.length = 9 := by omega
    · rw [seven] at below ⊢
      omega
    · rw [eight] at below ⊢
      omega
    · rw [nine] at below ⊢
      omega

theorem pairRead {bound n : Nat} {digits : Text} (pair : Pair bound digits n) (rest : Text) :
    pair? bound (digits ++ rest) = some (n, rest) := by
  cases pair with
  | digits first second below => simp [pair?, first, second, below]

theorem gapDropped {gap : Text} (between : Gap gap) (rest : Text) (stop : ∀ c ∈ rest.head?, c ≠ ':' ∧ ¬ isBlank c) :
    behindGap? false (gap ++ rest) = some rest := by
  have dropped : ((gap ++ rest).dropWhile fun c => c = ':' || isBlank c) = rest := by
    rw [List.dropWhile_append_of_pos fun c member => by simpa using between c member]
    cases rest with
    | nil => rfl
    | cons c rest =>
      have solid := stop c rfl
      exact List.dropWhile_cons_of_neg (by simp [solid])
  simp only [behindGap?, Bool.false_eq_true, if_false, dropped]

theorem zoneRead {t : Text} {o : Int} (zone : Zone t o) : offset? false t = some (o, []) := by
  cases zone with
  | capital => rfl
  | small => rfl
  | hours signed hour between =>
    have dropped := gapDropped between [] (by simp)
    rw [List.append_nil] at dropped
    rw [offsetSigned signed]
    simp [unsigned?, pairRead hour, dropped, minutes?]
  | minutes signed hour between minute =>
    have read := pairRead minute []
    rw [List.append_nil] at read
    cases minute with
    | @digits a b first second below =>
      have other : a ≠ ':' := by
        rintro rfl
        contradiction
      have dropped := gapDropped between [a, b] (by simp [other, Text.digitSolid first])
      rw [offsetSigned signed]
      simp [unsigned?, pairRead hour, dropped, minutes?, read]

theorem zoneIff {t : Text} {o : Int} : Zone t o ↔ offset? false t = some (o, []) := by
  refine ⟨zoneRead, fun read => ?_⟩
  obtain ⟨zone, rfl, written⟩ := offsetTaken read
  rwa [List.append_nil]

theorem zoneUnique {t : Text} {o p : Int} (left : Zone t o) (right : Zone t p) : o = p := by
  have same := (zoneIff.mp left).symm.trans (zoneIff.mp right)
  cases same
  rfl

def isClock (c : Char) : Bool := c.isDigit || c = ':' || c = '.' || isBlank c

theorem clockWide : Wide isClock where
  digit digit := by simp [isClock, digit]
  blank blank := by simp [isClock, blank]

theorem otherWide {c : Char} (solid : ¬ isBlank c) (other : ¬ c.isDigit) : Wide fun d => d ≠ c where
  digit digit := by
    refine decide_eq_true ?_
    rintro rfl
    exact other digit
  blank blank := by
    refine decide_eq_true ?_
    rintro rfl
    exact solid blank

theorem colonWide : Wide fun c => c ≠ ':' := otherWide (by decide) (by decide)

theorem pointWide : Wide fun c => c ≠ '.' := otherWide (by decide) (by decide)

def zone (t : Text) : Text := (t.dropWhile (· ≠ ':')).dropWhile isClock

def fraction (t : Text) : Text := ((t.dropWhile (· ≠ '.')).drop 1).takeWhile Char.isDigit

theorem zoneStarts {t : Text} {o : Int} (written : Zone t o) : ∃ c rest, t = c :: rest ∧ ¬ isClock c := by
  cases written with
  | capital => exact ⟨_, _, rfl, by decide⟩
  | small => exact ⟨_, _, rfl, by decide⟩
  | hours signed => exact ⟨_, _, rfl, by cases signed <;> decide⟩
  | minutes signed => exact ⟨_, _, rfl, by cases signed <;> decide⟩

def Clocked (format last : DateFormat) : Prop :=
  ∃ front clock, format = front ++ .mark [':'] :: (clock ++ last) ∧ front.all (only (· ≠ ':')) ∧
    clock.all (only isClock)

theorem Clocked.behind {format : DateFormat} (clocked : Clocked format []) (item : DateItem) :
    Clocked (format ++ [item]) [item] := by
  obtain ⟨front, clock, rfl, plain, timed⟩ := clocked
  exact ⟨front, clock, by simp, plain, timed⟩

theorem wallClocked : ∀ format ∈ wall, Clocked format [] := by
  have minute : [DateItem.loose .minute].all (only isClock) := rfl
  have second : [.loose .minute, .mark [':'], .loose .second, .fraction].all (only isClock) := rfl
  simp only [wall, List.forall_mem_cons]
  exact ⟨⟨calendarDate ++ [.mark ['T'], .loose .hour], _, rfl, rfl, second⟩,
    ⟨calendarDate ++ [.blanks, .loose .hour], _, rfl, rfl, second⟩,
    ⟨calendarDate ++ [.mark ['T'], .loose .hour], _, rfl, rfl, minute⟩,
    ⟨calendarDate ++ [.blanks, .loose .hour], _, rfl, rfl, minute⟩, nofun⟩

theorem strictClocked : Clocked strict [.exactOffset] :=
  ⟨strict.take 7, (strict.drop 8).take 4, rfl, rfl, rfl⟩

section
variable {w v : WrittenDate} {format last : DateFormat} {t : Text}

theorem clockPassed (clocked : Clocked format last) (reads : Reads w format t v []) :
    ∃ u rest, Reads u last rest v [] ∧ zone t = rest.dropWhile isClock := by
  obtain ⟨front, clock, rfl, plain, timed⟩ := clocked
  obtain ⟨_, rest, before, after⟩ := reads.split
  obtain ⟨date, rfl, plain⟩ := before.taken colonWide plain
  cases after with
  | item takes behind =>
    cases takes with
    | mark listed =>
      obtain rfl := List.mem_singleton.mp listed
      obtain ⟨u, rest, time, ending⟩ := behind.split
      obtain ⟨digits, rfl, timed⟩ := time.taken clockWide timed
      refine ⟨u, rest, ending, ?_⟩
      have kept : (':' :: (digits ++ rest)).dropWhile (· ≠ ':') = ':' :: (digits ++ rest) := rfl
      rw [zone, List.dropWhile_append_of_pos plain, List.singleton_append, kept,
        List.dropWhile_cons_of_pos (by decide), List.dropWhile_append_of_pos timed]
    | number numeral => simp at numeral
    | offset last => simp at last

theorem zoneNone (clocked : Clocked format []) (read : format.read? t = some v) : zone t = [] := by
  obtain ⟨u, rest, reads, same⟩ := clockPassed clocked (readsOfItems read)
  cases reads
  exact same

theorem zoneNoneOfDate (plain : format.all (only (· ≠ ':'))) (read : format.read? t = some v) : zone t = [] := by
  obtain ⟨taken, rfl, plain⟩ := (readsOfItems read).taken colonWide plain
  rw [zone, List.dropWhile_append_of_pos plain]
  rfl

theorem zoneWritten {item : DateItem} (offset : item = .looseOffset ∨ item = .exactOffset)
    (clocked : Clocked format [item]) (read : format.read? t = some v) : Zone (zone t) v.offset := by
  obtain ⟨u, rest, reads, same⟩ := clockPassed clocked (readsOfItems read)
  rw [same]
  cases reads with
  | item takes behind =>
    cases behind
    rw [List.append_nil]
    cases takes with
    | offset last blank written =>
      obtain ⟨c, rest, rfl, solid⟩ := zoneStarts written
      rwa [List.dropWhile_append_of_pos fun c member => clockWide.blank (blank c member),
        List.dropWhile_cons_of_neg solid]
    | number numeral => rcases offset with rfl | rfl <;> simp at numeral
    | mark | blanks | whole | fraction => simp at offset

end

def Pointed (format : DateFormat) : Prop :=
  format.all (only (· ≠ '.')) ∨
    ∃ front back, format = front ++ .fraction :: back ∧ front.all (only (· ≠ '.')) ∧ back.all (only (· ≠ '.'))

theorem Pointed.behind {format : DateFormat} (pointed : Pointed format) {item : DateItem}
    (pointless : only (· ≠ '.') item) : Pointed (format ++ [item]) := by
  rcases pointed with all | ⟨front, back, rfl, before, after⟩
  · exact .inl (by simp only [List.all_append, List.all_cons, List.all_nil, all, pointless, Bool.and_true])
  · refine .inr ⟨front, back ++ [item], by simp, before, ?_⟩
    simp only [List.all_append, List.all_cons, List.all_nil, after, pointless, Bool.and_true]

theorem wallPointed : ∀ format ∈ wall, Pointed format := by
  simp only [wall, List.forall_mem_cons]
  exact ⟨.inr ⟨calendarDate ++ .mark ['T'] :: (minutes ++ [.mark [':'], .loose .second]), [], rfl, rfl, rfl⟩,
    .inr ⟨calendarDate ++ .blanks :: (minutes ++ [.mark [':'], .loose .second]), [], rfl, rfl, rfl⟩,
    .inl rfl, .inl rfl, nofun⟩

theorem strictPointed : Pointed strict := .inr ⟨strict.take 11, [.exactOffset], rfl, rfl, rfl⟩

theorem setNano (w : WrittenDate) (part : DatePart) (n : Int) : (set w part n).nano = w.nano := by
  cases part <;> rfl

theorem takesNano {w v : WrittenDate} {item : DateItem} {taken rest : Text} (takes : Takes w item taken v rest)
    (pointless : only (· ≠ '.') item) : v.nano = w.nano := by
  cases takes with
  | number => exact setNano ..
  | fraction => cases pointless
  | mark | blanks | whole | offset => rfl

theorem Reads.nano {w v : WrittenDate} {format : DateFormat} {t left : Text} (reads : Reads w format t v left)
    (pointless : format.all (only (· ≠ '.'))) : v.nano = w.nano := by
  induction reads with
  | done => rfl
  | item takes behind ih =>
    have each := List.all_cons.symm.trans pointless
    rw [Bool.and_eq_true] at each
    exact (ih each.2).trans (takesNano takes each.1)

theorem fractionBehind {front digits rest : Text} (pointless : ∀ c ∈ front, decide (c ≠ '.'))
    (all : ∀ c ∈ digits, c.isDigit) (ends : ∀ c ∈ rest.head?, ¬ c.isDigit) :
    fraction (front ++ ('.' :: digits ++ rest)) = digits := by
  have kept : ('.' :: (digits ++ rest)).dropWhile (· ≠ '.') = '.' :: (digits ++ rest) := rfl
  rw [fraction, List.dropWhile_append_of_pos pointless, List.cons_append, kept]
  exact congrArg Prod.fst (Placeholder.spanDigitsAppend all ends)

theorem fractionPointless {t : Text} (pointless : ∀ c ∈ t, decide (c ≠ '.')) : fraction t = [] := by
  rw [fraction, List.dropWhile_eq_nil_iff.mpr pointless]
  rfl

theorem nanoRead {format : DateFormat} (pointed : Pointed format) {t : Text} {v : WrittenDate}
    (read : format.read? t = some v) : v.nano = nanosOf (fraction t) ∧ ∀ c ∈ fraction t, c.isDigit := by
  refine ⟨?_, fun c member => List.mem_takeWhile_imp member⟩
  have reads := readsOfItems read
  rcases pointed with all | ⟨front, back, rfl, before, after⟩
  · obtain ⟨taken, rfl, pointless⟩ := reads.taken pointWide all
    rw [List.append_nil, fractionPointless pointless]
    exact reads.nano all
  · obtain ⟨u, rest, first, later⟩ := reads.split
    have zero : u.nano = 0 := first.nano before
    obtain ⟨date, rfl, pointless⟩ := first.taken pointWide before
    cases later with
    | item takes behind =>
      obtain ⟨ending, rfl, last⟩ := behind.taken pointWide after
      rw [behind.nano after]
      cases takes with
      | whole =>
        rw [zero, fractionPointless (List.forall_mem_append.mpr ⟨pointless, ?_⟩)]
        · rfl
        · simpa using last
      | fraction all ends => rw [fractionBehind pointless all ends]
      | number numeral => simp at numeral
      | offset last => simp at last

def finer (t : Text) : Bool := (((fraction t).take 9).drop 6).any (· ≠ '0')

theorem fineRead {format : DateFormat} (pointed : Pointed format) {t : Text} {v : WrittenDate}
    (read : format.read? t = some v) : v.nano < 1000000000 ∧ (v.nano % 1000 ≠ 0 ↔ finer t) := by
  obtain ⟨nano, all⟩ := nanoRead pointed read
  refine ⟨nano ▸ nanosBelow all, ?_⟩
  rw [nano, Ne, nanosFine all, finer]
  simp

def Offset (t : Text) (o : Int) : Prop := zone t = [] ∧ o = 0 ∨ Zone (zone t) o

theorem offsetBare {t : Text} (bare : zone t = []) (o : Int) : Offset t o ↔ o = 0 := by
  have none : ¬ Zone (zone t) o := by
    intro written
    obtain ⟨c, rest, same, -⟩ := zoneStarts written
    rw [bare] at same
    cases same
  rw [Offset, or_iff_left none]
  simp [bare]

theorem offsetZoned {t : Text} {p : Int} (zoned : Zone (zone t) p) (o : Int) : Offset t o ↔ o = p := by
  obtain ⟨c, rest, same, -⟩ := zoneStarts zoned
  have some : zone t ≠ [] := by simp [same]
  constructor
  · rintro (⟨bare, -⟩ | written)
    · exact absurd bare some
    · exact zoneUnique written zoned
  · rintro rfl
    exact .inr zoned

end DateFormat

namespace Stamp

def Apart (s m : Stamp) : Prop := s.nanos < 0 ∧ 0 < m.nanos ∨ m.nanos < 0 ∧ 0 < s.nanos

instance (s m : Stamp) : Decidable (Apart s m) := inferInstanceAs (Decidable (_ ∨ _))

theorem microsBetween {s m : Stamp} {seconds : Int} (between : s.nanos - m.nanos = seconds * 1000000000) :
    s.toMicros - m.toMicros =
      seconds * 1000000 - if s.nanos % 1000 ≠ 0 ∧ s.Apart m then seconds.sign else 0 := by
  have cut (n : Int) : n < 0 ∧ n.tdiv 1000 = -(-n / 1000) ∨ 0 ≤ n ∧ n.tdiv 1000 = n / 1000 := by
    rcases lt_or_ge n 0 with before | behind
    · rw [← Int.tdiv_eq_ediv_of_nonneg (by omega), Int.neg_tdiv, Int.neg_neg]
      exact .inl ⟨before, rfl⟩
    · exact .inr ⟨behind, Int.tdiv_eq_ediv_of_nonneg behind⟩
  have first := cut s.nanos
  have second := cut m.nanos
  rw [toMicrosNanos, toMicrosNanos]
  split
  · rename_i apart
    have sign : seconds < 0 ∧ seconds.sign = -1 ∨ 0 < seconds ∧ seconds.sign = 1 := by
      obtain ⟨-, early | late⟩ := apart
      · exact .inl ⟨by omega, Int.sign_eq_neg_one_of_neg (by omega)⟩
      · exact .inr ⟨by omega, Int.sign_eq_one_of_pos (by omega)⟩
    simp only [Apart] at apart
    omega
  · rename_i together
    simp only [Apart] at together
    omega

theorem earlierFound {s m : Stamp} {seconds : Int} (found : s.earlier? seconds = some m) :
    (Date.ofDay m.day).valid ∧ m.clock.second < 86400 ∧ m.clock.nano = s.clock.nano ∧
      s.nanos - m.nanos = seconds * 1000000000 := by
  obtain ⟨d, day, rfl⟩ := Option.map_eq_some_iff.mp found
  obtain ⟨rfl, valid, -⟩ := Date.ofDayFound day
  refine ⟨valid, ?_, rfl, ?_⟩
  · simp only
    omega
  · simp only [nanos]
    omega

end Stamp

namespace WrittenDate

theorem stampFound {w : WrittenDate} {s : Stamp} (found : w.stamp? = some s) (short : w.nano < 1000000000) :
    (-100000000 < s.day ∧ s.day < 100000000) ∧ s.clock.Within ∧ s.nanos % 1000 = w.nano % 1000 := by
  obtain ⟨d, date, c, clock, same⟩ : ∃ d, w.date? = some d ∧ ∃ c, w.clock? = some c ∧ some ⟨d.toDay, c⟩ = some s := by
    simpa only [stamp?, Option.bind_eq_bind, Option.bind_eq_some_iff] using found
  cases same
  simp only [date?] at date
  split at date
  · rename_i valid
    cases date
    refine ⟨Date.toDayNear valid, ?_⟩
    simp only [clock?] at clock
    split at clock
    · cases clock
      refine ⟨⟨?_, ?_⟩, ?_⟩
      · simp only
        omega
      · simp only
        omega
      · simp only [Stamp.nanos]
        omega
    · cases clock
  · cases date

theorem universalFound {w : WrittenDate} {m : Stamp} (found : w.universal? = some m) :
    ∃ s, w.stamp? = some s ∧ s.earlier? w.offset = some m := by
  obtain ⟨s, stamp, moved⟩ := Option.bind_eq_some_iff.mp found
  split at moved
  · exact ⟨s, stamp, moved⟩
  · cases moved

end WrittenDate

namespace Stamp

open DateFormat

theorem plainFound {t : Text} {s : Stamp} (found : readPlain? t = some s) :
    zone t = [] ∧ ∃ format w, Pointed format ∧ format.read? t = some w ∧ w.stamp? = some s := by
  obtain ⟨format, listed, tried⟩ := List.exists_of_findSome?_eq_some found
  obtain ⟨w, read, stamp⟩ := Option.bind_eq_some_iff.mp tried
  rcases List.mem_append.mp listed with timed | dated
  · exact ⟨zoneNone (wallClocked format timed) read, format, w, wallPointed format timed, read, stamp⟩
  · obtain rfl := List.mem_singleton.mp dated
    exact ⟨zoneNoneOfDate rfl read, _, w, .inl rfl, read, stamp⟩

theorem offsetFound {t : Text} {w : WrittenDate} {m : Stamp} (found : readOffset? t = some (w, m)) :
    Zone (zone t) w.offset ∧ (∃ format, Pointed format ∧ format.read? t = some w) ∧ w.universal? = some m := by
  obtain ⟨format, listed, tried⟩ := List.exists_of_findSome?_eq_some found
  obtain ⟨v, read, moved⟩ := Option.bind_eq_some_iff.mp tried
  obtain ⟨s, universal, same⟩ := Option.bind_eq_some_iff.mp moved
  cases same
  rcases List.mem_cons.mp listed with rfl | loose
  · exact ⟨zoneWritten (.inr rfl) strictClocked read, ⟨_, strictPointed, read⟩, universal⟩
  · obtain ⟨plain, timed, rfl⟩ := List.mem_map.mp loose
    exact ⟨zoneWritten (.inl rfl) ((wallClocked plain timed).behind _) read,
      ⟨_, (wallPointed plain timed).behind rfl, read⟩, universal⟩

theorem readOneWay (t : Text) : readPlain? t = none ∨ readOffset? t = none := by
  cases plain : readPlain? t with
  | none => exact .inl rfl
  | some s =>
    refine .inr (Option.eq_none_iff_forall_ne_some.mpr fun (w, m) offset => ?_)
    obtain ⟨c, rest, same, -⟩ := zoneStarts (offsetFound offset).1
    simp [(plainFound plain).1] at same

structure Told (t : Text) (wall moment : Stamp) (offset : Int) : Prop where
  readWall : readWall? t = some wall
  readMoment : readUniversal? t = some moment
  fits : (-2 ^ 63 ≤ wall.toMicros ∧ wall.toMicros < 2 ^ 63) ∧ -2 ^ 63 ≤ moment.toMicros ∧ moment.toMicros < 2 ^ 63
  written : ∀ o, Offset (Text.trim t) o ↔ o = offset
  between : wall.nanos - moment.nanos = offset * 1000000000
  micros : wall.toMicros - moment.toMicros =
    offset * 1000000 - if finer (Text.trim t) ∧ wall.Apart moment then offset.sign else 0

theorem toldPlain {t : Text} {s : Stamp} (found : readPlain? (Text.trim t) = some s) : Told t s s 0 := by
  have other : readOffset? (Text.trim t) = none := (readOneWay _).resolve_left (by simp [found])
  obtain ⟨bare, format, w, pointed, read, stamp⟩ := plainFound found
  obtain ⟨near, within, -⟩ := WrittenDate.stampFound stamp (fineRead pointed read).1
  have fits := microsFit near within
  exact {
    readWall := by simp [readWall?, found]
    readMoment := by simp [readUniversal?, other, found]
    fits := ⟨fits, fits⟩
    written := offsetBare bare
    between := by simp
    micros := by simp }

theorem toldOffset {t : Text} {w : WrittenDate} {m : Stamp} (found : readOffset? (Text.trim t) = some (w, m)) :
    ∃ s, Told t s m w.offset := by
  have other : readPlain? (Text.trim t) = none := (readOneWay _).resolve_right (by simp [found])
  obtain ⟨zoned, ⟨format, pointed, read⟩, universal⟩ := offsetFound found
  obtain ⟨s, stamp, moved⟩ := WrittenDate.universalFound universal
  obtain ⟨short, fine⟩ := fineRead pointed read
  obtain ⟨near, within, below⟩ := WrittenDate.stampFound stamp short
  obtain ⟨valid, second, nano, between⟩ := earlierFound moved
  have below : s.nanos % 1000 ≠ 0 ↔ finer (Text.trim t) := by
    rw [below, ← fine]
    omega
  have micros := microsBetween between
  simp only [below] at micros
  exact ⟨s, {
    readWall := by simp [readWall?, other, found, stamp]
    readMoment := by simp [readUniversal?, found]
    fits := ⟨microsFit near within, microsFit (Date.ofDayNear valid) ⟨second, nano ▸ within.nano⟩⟩
    written := offsetZoned zoned
    between := between
    micros := micros }⟩

end Stamp

namespace Binding

open Stamp

/-- A text that can be sent as a moment can be sent as a wall time, and the other way round. The counts are as far from
each other as the offset in the text says, or a microsecond less when a finer fraction is cut off upwards before the
year 2000 and downwards behind its turn. -/
theorem offsetsBetween (t : Text) :
    (readPlain? t = none ∨ readOffset? t = none) ∧
      ((∃ f, bind (.text t) (.scalar .timestamptz) = .error f) ∧
          (∃ f, bind (.text t) (.scalar .timestamp) = .error f) ∨
        ∃ wall moment offset, Told t wall moment offset ∧
          bind (.text t) (.scalar .timestamptz) = .ok (some (Bytes.ofInt 8 moment.toMicros)) ∧
          bind (.text t) (.scalar .timestamp) = .ok (some (Bytes.ofInt 8 wall.toMicros))) := by
  refine ⟨readOneWay t, ?_⟩
  have sends {wall moment : Stamp} {offset : Int} (told : Told t wall moment offset) :
      bind (.text t) (.scalar .timestamptz) = .ok (some (Bytes.ofInt 8 moment.toMicros)) ∧
        bind (.text t) (.scalar .timestamp) = .ok (some (Bytes.ofInt 8 wall.toMicros)) := by
    simp only [bind, scalar, ofText, told.readMoment, told.readWall, sendOr, sent, and_self]
  cases plain : readPlain? (Text.trim t) with
  | some s => exact .inr ⟨s, s, 0, toldPlain plain, sends (toldPlain plain)⟩
  | none =>
    cases zoned : readOffset? (Text.trim t) with
    | some found =>
      obtain ⟨s, told⟩ := toldOffset zoned
      exact .inr ⟨s, found.2, found.1.offset, told, sends told⟩
    | none =>
      have universal : readUniversal? t = none := by simp [readUniversal?, plain, zoned]
      have wall : readWall? t = none := by simp [readWall?, plain, zoned]
      refine .inl ⟨⟨.mismatch ('\'' :: t ++ ['\'']) Scalar.timestamptz.entry.1, ?_⟩,
        .mismatch ('\'' :: t ++ ['\'']) Scalar.timestamp.entry.1, ?_⟩
      · simp only [bind, scalar, ofText, universal, sendOr]
      · simp only [bind, scalar, ofText, wall, sendOr]

theorem turnOfYearCut :
    let t : Text := "1999-12-31T23:30:00.0000005-01:00"
    DateFormat.Offset (Text.trim t) (-3600) ∧
      bind (.text t) (.scalar .timestamptz) = .ok (some (Bytes.ofInt 8 1800000000)) ∧
      bind (.text t) (.scalar .timestamp) = .ok (some (Bytes.ofInt 8 (-1799999999))) ∧
      (-1799999999 - 1800000000 : Int) ≠ -3600 * 1000000 := by
  exact ⟨.inr (DateFormat.zoneIff.mpr (by decide +kernel)), by decide +kernel, by decide +kernel, by decide⟩

end Binding
end TableGateway
