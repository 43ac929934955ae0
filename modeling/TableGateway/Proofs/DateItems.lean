import Mathlib.Data.List.TakeWhile
import TableGateway.Proofs.Trimming
import TableGateway.Proofs.WrittenDates

/-! What the items of a format take of a text. A text that is read is the text that its items took, one behind the
other, and what each of them took is spelled as the item asks for. -/
namespace TableGateway
namespace DateFormat

inductive Pair (bound : Nat) : Text → Nat → Prop
  | digits {a b : Char} (first : a.isDigit) (second : b.isDigit) (below : Text.digitValue a < bound) :
      Pair bound [a, b] (10 * Text.digitValue a + Text.digitValue b)

inductive Sign : Char → Int → Prop
  | plus : Sign '+' 1
  | minus : Sign '-' (-1)
  | dash : Sign '\u2212' (-1)

def Gap (t : Text) : Prop := ∀ c ∈ t, c = ':' ∨ isBlank c

inductive Zone : Text → Int → Prop
  | capital : Zone ['Z'] 0
  | small : Zone ['z'] 0
  | hours {c : Char} {sign : Int} {hours gap : Text} {h : Nat} (signed : Sign c sign) (hour : Pair 10 hours h)
      (between : Gap gap) : Zone (c :: (hours ++ gap)) (sign * (h * 3600))
  | minutes {c : Char} {sign : Int} {hours gap minutes : Text} {h m : Nat} (signed : Sign c sign)
      (hour : Pair 10 hours h) (between : Gap gap) (minute : Pair 6 minutes m) :
      Zone (c :: (hours ++ (gap ++ minutes))) (sign * (h * 3600 + m * 60))

def nanosOf (digits : Text) : Nat := Text.toNat (digits.take 9) * 10 ^ (9 - (digits.take 9).length)

inductive Takes (w : WrittenDate) : DateItem → Text → WrittenDate → Text → Prop
  | number {item : DateItem} {part : DatePart} {n : Int} {blanks sign digits rest : Text}
      (numeral : item = .loose part ∨ item = .exact part) (blank : ∀ c ∈ blanks, isBlank c)
      (signed : ∀ c ∈ sign, part = .year ∧ (c = '+' ∨ c = '-')) (all : ∀ c ∈ digits, c.isDigit) :
      Takes w item (blanks ++ (sign ++ digits)) (set w part n) rest
  | mark {choices rest : Text} {c : Char} (listed : c ∈ choices) : Takes w (.mark choices) [c] w rest
  | blanks {blanks rest : Text} (blank : ∀ c ∈ blanks, isBlank c) : Takes w .blanks blanks w rest
  | whole {rest : Text} : Takes w .fraction [] w rest
  | fraction {digits rest : Text} (all : ∀ c ∈ digits, c.isDigit) (ends : ∀ c ∈ rest.head?, ¬ c.isDigit) :
      Takes w .fraction ('.' :: digits) { w with nano := nanosOf digits } rest
  | offset {item : DateItem} {blanks zone rest : Text} {o : Int} (last : item = .looseOffset ∨ item = .exactOffset)
      (blank : ∀ c ∈ blanks, isBlank c) (written : Zone zone o) :
      Takes w item (blanks ++ zone) { w with offset := o } rest

inductive Reads : WrittenDate → DateFormat → Text → WrittenDate → Text → Prop
  | done {w : WrittenDate} {t : Text} : Reads w [] t w t
  | item {w v u : WrittenDate} {item : DateItem} {format : DateFormat} {taken rest left : Text}
      (takes : Takes w item taken v rest) (behind : Reads v format rest u left) :
      Reads w (item :: format) (taken ++ rest) u left

theorem numberTaken {most n : Nat} {t rest : Text} (read : number? most t = some (n, rest)) :
    ∃ digits, t = digits ++ rest ∧ ∀ c ∈ digits, c.isDigit := by
  simp only [number?] at read
  split at read
  · cases read
  · cases read
    refine ⟨(t.take most).takeWhile Char.isDigit, ?_, fun c member => List.mem_takeWhile_imp member⟩
    have start : (t.take most).takeWhile Char.isDigit <+: t :=
      (List.takeWhile_prefix _).trans (List.take_prefix most t)
    exact (List.prefix_iff_eq_append.mp start).symm

theorem pairTaken {bound n : Nat} {t rest : Text} (read : pair? bound t = some (n, rest)) :
    ∃ digits, t = digits ++ rest ∧ Pair bound digits n := by
  unfold pair? at read
  split at read
  · split at read
    · rename_i digits
      cases read
      exact ⟨_, rfl, .digits digits.1 digits.2.1 digits.2.2⟩
    · cases read
  · cases read

theorem fixedTaken {part : DatePart} {n : Int} {t rest : Text} (read : fixed? part t = some (n, rest)) :
    ∃ digits, t = digits ++ rest ∧ ∀ c ∈ digits, c.isDigit := by
  simp only [fixed?] at read
  split at read
  · rename_i digits
    cases read
    exact ⟨t.take (width part), (List.take_append_drop _ t).symm, List.all_eq_true.mp digits.2⟩
  · cases read

theorem looseTaken {part : DatePart} {n : Int} {t rest : Text} (read : loose? part t = some (n, rest)) :
    ∃ blanks sign digits, t = blanks ++ (sign ++ digits) ++ rest ∧ (∀ c ∈ blanks, isBlank c) ∧
      (∀ c ∈ sign, part = .year ∧ (c = '+' ∨ c = '-')) ∧ ∀ c ∈ digits, c.isDigit := by
  obtain ⟨blanks, split, blank⟩ := Text.trimStartSplit t
  suffices behind : ∃ sign digits, Text.trimStart t = sign ++ digits ++ rest ∧
      (∀ c ∈ sign, part = .year ∧ (c = '+' ∨ c = '-')) ∧ ∀ c ∈ digits, c.isDigit by
    obtain ⟨sign, digits, same, signed, all⟩ := behind
    exact ⟨blanks, sign, digits, by rw [List.append_assoc, ← same, ← split], blank, signed, all⟩
  simp only [loose?] at read
  split at read
  · rename_i minus
    obtain ⟨⟨n, left⟩, number, same⟩ := Option.map_eq_some_iff.mp read
    cases same
    obtain ⟨digits, rfl, all⟩ := numberTaken number
    exact ⟨['-'], digits, by rw [minus]; rfl, by simp, all⟩
  · rename_i plus
    obtain ⟨⟨n, left⟩, number, same⟩ := Option.map_eq_some_iff.mp read
    cases same
    obtain ⟨digits, rfl, all⟩ := numberTaken number
    exact ⟨['+'], digits, by rw [plus]; rfl, by simp, all⟩
  · obtain ⟨⟨n, left⟩, number, same⟩ := Option.map_eq_some_iff.mp read
    cases same
    obtain ⟨digits, same, all⟩ := numberTaken number
    exact ⟨[], digits, same, by simp, all⟩

def behindGap? (exact : Bool) (t : Text) : Option Text :=
  if exact then
    match t with
    | ':' :: r => some r
    | _ => none
  else some (t.dropWhile fun c => c = ':' || isBlank c)

def minutes? (exact : Bool) (t : Text) : Option (Nat × Text) :=
  if t.isEmpty ∧ !exact then some (0, t) else pair? 6 t

def unsigned? (exact : Bool) (sign : Int) (t : Text) : Option (Int × Text) := do
  let (hours, t) ← pair? 10 t
  let t ← behindGap? exact t
  let (minutes, t) ← minutes? exact t
  if exact ∧ 24 ≤ hours then none else some (sign * (hours * 3600 + minutes * 60 : Nat), t)

theorem offsetSigned {c : Char} {sign : Int} (signed : Sign c sign) (exact : Bool) (t : Text) :
    offset? exact (c :: t) = unsigned? exact sign t := by
  cases signed
  all_goals
    refine congrArg (Option.bind _) (funext fun (h, t) => ?_)
    cases exact with
    | false =>
      simp only [behindGap?, minutes?, Bool.false_eq_true, if_false, Bool.not_false, and_true, Option.bind_eq_bind,
        Option.bind_some]
      split <;> rfl
    | true =>
      cases t with
      | nil => rfl
      | cons d t =>
        by_cases colon : d = ':' <;> simp [behindGap?, minutes?, colon]

theorem gapTaken {exact : Bool} {t rest : Text} (read : behindGap? exact t = some rest) :
    ∃ gap, t = gap ++ rest ∧ Gap gap := by
  unfold behindGap? at read
  split at read
  · split at read
    · cases read
      exact ⟨[':'], rfl, by simp [Gap]⟩
    · cases read
  · cases read
    exact ⟨t.takeWhile fun c => c = ':' || isBlank c, List.takeWhile_append_dropWhile.symm,
      fun c member => by simpa using List.mem_takeWhile_imp member⟩

theorem minutesTaken {exact : Bool} {m : Nat} {t rest : Text} (read : minutes? exact t = some (m, rest)) :
    m = 0 ∧ t = [] ∧ rest = [] ∨ ∃ digits, t = digits ++ rest ∧ Pair 6 digits m := by
  unfold minutes? at read
  split at read
  · rename_i ended
    cases read
    have empty : t = [] := List.isEmpty_iff.mp ended.1
    exact .inl ⟨rfl, empty, empty⟩
  · exact .inr (pairTaken read)

theorem unsignedTaken {exact : Bool} {c : Char} {sign o : Int} {t rest : Text} (signed : Sign c sign)
    (read : unsigned? exact sign t = some (o, rest)) : ∃ zone, c :: t = zone ++ rest ∧ Zone zone o := by
  simp only [unsigned?, Option.bind_eq_bind, Option.bind_eq_some_iff] at read
  obtain ⟨⟨h, behind⟩, hours, after, dropped, ⟨m, left⟩, minutes, last⟩ := read
  obtain ⟨hourDigits, rfl, hour⟩ := pairTaken hours
  obtain ⟨gap, rfl, between⟩ := gapTaken dropped
  split at last
  · cases last
  · cases last
    rcases minutesTaken minutes with ⟨rfl, rfl, rfl⟩ | ⟨minuteDigits, rfl, minute⟩
    · refine ⟨c :: (hourDigits ++ gap), by simp, ?_⟩
      simpa using Zone.hours signed hour between
    · refine ⟨c :: (hourDigits ++ (gap ++ minuteDigits)), by simp, ?_⟩
      simpa using Zone.minutes signed hour between minute

theorem offsetTaken {exact : Bool} {o : Int} {t rest : Text} (read : offset? exact t = some (o, rest)) :
    ∃ zone, t = zone ++ rest ∧ Zone zone o := by
  unfold offset? at read
  dsimp only at read
  split at read
  · cases read
    exact ⟨['Z'], rfl, .capital⟩
  · cases read
    exact ⟨['z'], rfl, .small⟩
  · exact unsignedTaken .plus ((offsetSigned .plus exact _).symm.trans read)
  · exact unsignedTaken .minus ((offsetSigned .minus exact _).symm.trans read)
  · exact unsignedTaken .dash ((offsetSigned .dash exact _).symm.trans read)
  · cases read

theorem nanosTaken {n : Nat} {t rest : Text} (read : nanos? t = some (n, rest)) :
    ∃ digits, t = digits ++ rest ∧ (∀ c ∈ digits, c.isDigit) ∧ (∀ c ∈ rest.head?, ¬ c.isDigit) ∧
      n = nanosOf digits := by
  have ends : ∀ c ∈ (t.dropWhile Char.isDigit).head?, ¬ c.isDigit := by
    intro c first
    have stops := List.head?_dropWhile_not Char.isDigit t
    rw [Option.mem_def.mp first] at stops
    simpa using stops
  have behind : t.drop (t.takeWhile Char.isDigit).length = t.dropWhile Char.isDigit :=
    List.append_cancel_left ((List.prefix_iff_eq_append.mp (List.takeWhile_prefix _)).trans
      List.takeWhile_append_dropWhile.symm)
  simp only [nanos?] at read
  split at read
  · cases read
  · cases read
    refine ⟨t.takeWhile Char.isDigit, ?_, fun c member => List.mem_takeWhile_imp member, ?_, rfl⟩
    · rw [behind, List.takeWhile_append_dropWhile]
    · rwa [behind]

theorem itemTaken {w v : WrittenDate} {item : DateItem} {t rest : Text} (read : item? w t item = some (v, rest)) :
    ∃ taken, t = taken ++ rest ∧ Takes w item taken v rest := by
  cases item with
  | loose part =>
    obtain ⟨⟨n, left⟩, number, same⟩ := Option.map_eq_some_iff.mp read
    cases same
    obtain ⟨blanks, sign, digits, same, blank, signed, all⟩ := looseTaken number
    exact ⟨_, same, .number (.inl rfl) blank signed all⟩
  | exact part =>
    obtain ⟨⟨n, left⟩, number, same⟩ := Option.map_eq_some_iff.mp read
    cases same
    obtain ⟨digits, same, all⟩ := fixedTaken number
    exact ⟨[] ++ ([] ++ digits), same, .number (.inr rfl) (by simp) (by simp) all⟩
  | mark choices =>
    simp only [item?] at read
    split at read
    · split at read
      · cases read
        exact ⟨_, rfl, .mark ‹_›⟩
      · cases read
    · cases read
  | blanks =>
    cases read
    obtain ⟨blanks, same, blank⟩ := Text.trimStartSplit t
    exact ⟨blanks, same, .blanks blank⟩
  | fraction =>
    simp only [item?] at read
    split at read
    · obtain ⟨⟨n, left⟩, nanos, same⟩ := Option.map_eq_some_iff.mp read
      cases same
      obtain ⟨digits, rfl, all, ends, rfl⟩ := nanosTaken nanos
      exact ⟨'.' :: digits, rfl, .fraction all ends⟩
    · cases read
      exact ⟨[], rfl, .whole⟩
  | looseOffset =>
    obtain ⟨⟨o, left⟩, offset, same⟩ := Option.map_eq_some_iff.mp read
    cases same
    obtain ⟨blanks, split, blank⟩ := Text.trimStartSplit t
    obtain ⟨zone, same, written⟩ := offsetTaken offset
    exact ⟨blanks ++ zone, by rw [List.append_assoc, ← same, ← split], .offset (.inl rfl) blank written⟩
  | exactOffset =>
    obtain ⟨⟨o, left⟩, offset, same⟩ := Option.map_eq_some_iff.mp read
    cases same
    obtain ⟨zone, same, written⟩ := offsetTaken offset
    exact ⟨[] ++ zone, same, .offset (.inr rfl) (by simp) written⟩

theorem readsOfItems {w v : WrittenDate} {format : DateFormat} {t : Text} (read : items? w format t = some v) :
    Reads w format t v [] := by
  induction format generalizing w t with
  | nil =>
    cases t with
    | nil =>
      cases read
      exact .done
    | cons c t => cases read
  | cons item format ih =>
    obtain ⟨⟨u, rest⟩, taken, behind⟩ := Option.bind_eq_some_iff.mp read
    obtain ⟨taken, rfl, takes⟩ := itemTaken taken
    exact .item takes (ih behind)

theorem Reads.split {w v : WrittenDate} {front back : DateFormat} {t left : Text}
    (reads : Reads w (front ++ back) t v left) : ∃ u rest, Reads w front t u rest ∧ Reads u back rest v left := by
  induction front generalizing w t with
  | nil => exact ⟨w, t, .done, reads⟩
  | cons item front ih =>
    cases reads with
    | item takes behind =>
      obtain ⟨u, rest, before, after⟩ := ih behind
      exact ⟨u, rest, .item takes before, after⟩

def only (p : Char → Bool) : DateItem → Bool
  | .loose part | .exact part => part ≠ .year || p '+' && p '-'
  | .mark choices => choices.all p
  | .blanks => true
  | .fraction => p '.'
  | .looseOffset | .exactOffset => ['Z', 'z', '+', '-', '\u2212', ':'].all p

structure Wide (p : Char → Bool) : Prop where
  digit : ∀ {c}, c.isDigit → p c
  blank : ∀ {c}, isBlank c → p c

section
variable {p : Char → Bool} (wide : Wide p)

include wide

theorem pairOnly {bound n : Nat} {t : Text} (pair : Pair bound t n) : ∀ c ∈ t, p c := by
  cases pair with
  | digits first second => simp [wide.digit first, wide.digit second]

theorem zoneOnly (marks : ['Z', 'z', '+', '-', '\u2212', ':'].all p) {t : Text} {o : Int} (zone : Zone t o) :
    ∀ c ∈ t, p c := by
  have listed : ∀ c ∈ ['Z', 'z', '+', '-', '\u2212', ':'], p c := List.all_eq_true.mp marks
  have sign {c : Char} {s : Int} (signed : Sign c s) : p c := by
    cases signed <;> exact listed _ (by decide)
  have gap {t : Text} (between : Gap t) : ∀ c ∈ t, p c := by
    intro c member
    rcases between c member with rfl | blank
    · exact listed ':' (by decide)
    · exact wide.blank blank
  cases zone with
  | capital => exact List.forall_mem_singleton.mpr (listed 'Z' (by decide))
  | small => exact List.forall_mem_singleton.mpr (listed 'z' (by decide))
  | hours signed hour between =>
    simp only [List.forall_mem_cons, List.forall_mem_append]
    exact ⟨sign signed, pairOnly wide hour, gap between⟩
  | minutes signed hour between minute =>
    simp only [List.forall_mem_cons, List.forall_mem_append]
    exact ⟨sign signed, pairOnly wide hour, gap between, pairOnly wide minute⟩

theorem takesOnly {w v : WrittenDate} {item : DateItem} {taken rest : Text} (takes : Takes w item taken v rest)
    (allowed : only p item) : ∀ c ∈ taken, p c := by
  cases takes with
  | number numeral blank signed all =>
    rename_i part n blanks sign digits
    have year : part ≠ .year || p '+' && p '-' := by rcases numeral with rfl | rfl <;> exact allowed
    simp only [List.forall_mem_append]
    refine ⟨fun c member => wide.blank (blank c member), fun c member => ?_, fun c member => wide.digit (all c member)⟩
    obtain ⟨rfl, sign⟩ := signed c member
    have signs : p '+' ∧ p '-' := by simpa using year
    rcases sign with rfl | rfl
    · exact signs.1
    · exact signs.2
  | mark listed => exact List.forall_mem_singleton.mpr (List.all_eq_true.mp allowed _ listed)
  | blanks blank => exact fun c member => wide.blank (blank c member)
  | whole => nofun
  | fraction all => exact List.forall_mem_cons.mpr ⟨allowed, fun c member => wide.digit (all c member)⟩
  | offset last blank written =>
    have marks : ['Z', 'z', '+', '-', '\u2212', ':'].all p := by rcases last with rfl | rfl <;> exact allowed
    simp only [List.forall_mem_append]
    exact ⟨fun c member => wide.blank (blank c member), zoneOnly wide marks written⟩

theorem Reads.taken {w v : WrittenDate} {format : DateFormat} {t left : Text} (reads : Reads w format t v left)
    (allowed : format.all (only p)) : ∃ taken, t = taken ++ left ∧ ∀ c ∈ taken, p c := by
  induction reads with
  | done => exact ⟨[], rfl, nofun⟩
  | item takes behind ih =>
    have each := List.all_cons.symm.trans allowed
    rw [Bool.and_eq_true] at each
    obtain ⟨taken, rfl, all⟩ := ih each.2
    exact ⟨_, (List.append_assoc _ _ _).symm, List.forall_mem_append.mpr ⟨takesOnly wide takes each.1, all⟩⟩

end

end DateFormat
end TableGateway
