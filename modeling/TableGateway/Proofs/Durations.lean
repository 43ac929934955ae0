import TableGateway.Interval
import TableGateway.Proofs.Scan

/-! Durations as ISO 8601 writes them: `P`, years, months and days, and behind a `T` hours, minutes and seconds. Parts
may be left out, though not all of them; every part has a sign of its own, and `M` is told by where it stands. -/
namespace TableGateway
namespace Duration

inductive Sign : Text → Int → Prop
  | plus : Sign [] 1
  | minus : Sign ['-'] (-1)

inductive Part (unit : Char) : Text → Int → Prop
  | absent : Part unit [] 0
  | present {sign digits : Text} {σ : Int} (signed : Sign sign σ) (filled : digits ≠ [])
      (all : ∀ c ∈ digits, c.isDigit) : Part unit (sign ++ (digits ++ [unit])) (σ * Text.toNat digits)

inductive Seconds : Text → Int → Prop
  | whole {t : Text} {n : Int} (part : Part 'S' t n) : Seconds t (1000000 * n)
  | decimal {sign digits places : Text} {σ : Int} (signed : Sign sign σ) (filled : digits ≠ [])
      (all : ∀ c ∈ digits, c.isDigit) (some : places ≠ []) (few : places.length ≤ 6)
      (allToo : ∀ c ∈ places, c.isDigit) : Seconds (sign ++ (digits ++ '.' :: (places ++ ['S'])))
        (σ * (1000000 * Text.toNat digits + Text.toNat places * 10 ^ (6 - places.length) : Nat))

inductive Time : Text → Int → Prop
  | absent : Time [] 0
  | present {h m s : Text} {hours minutes seconds : Int} (hoursPart : Part 'H' h hours)
      (minutesPart : Part 'M' m minutes) (secondsPart : Seconds s seconds) (filled : h ++ (m ++ s) ≠ []) :
      Time ('T' :: (h ++ (m ++ s))) (3600000000 * hours + 60000000 * minutes + seconds)

inductive Means : Text → Interval → Prop
  | duration {y m d t : Text} {years months days micros : Int} (yearsPart : Part 'Y' y years)
      (monthsPart : Part 'M' m months) (daysPart : Part 'D' d days) (time : Time t micros)
      (filled : y ++ (m ++ (d ++ t)) ≠ []) :
      Means ('P' :: (y ++ (m ++ (d ++ t)))) ⟨micros, days, 12 * years + months⟩

def readSign : Text → Int × Text
  | '-' :: t => (-1, t)
  | t => (1, t)

def readPart (unit : Char) (t : Text) : Int × Text :=
  let (sign, body) := readSign t
  match Text.spanDigits body with
  | (d :: digits, c :: rest) => if c = unit then (sign * Text.toNat (d :: digits), rest) else (0, t)
  | _ => (0, t)

def readSeconds? (t : Text) : Option Int :=
  let (sign, body) := readSign t
  match Text.spanDigits body with
  | ([], []) => if t.isEmpty then some 0 else none
  | (d :: digits, ['S']) => some (1000000 * (sign * Text.toNat (d :: digits)))
  | (d :: digits, '.' :: rest) =>
    let (places, last) := Text.spanDigits rest
    if places.isEmpty ∨ 6 < places.length ∨ last ≠ ['S'] then none
    else some (sign * (1000000 * Text.toNat (d :: digits) + Text.toNat places * 10 ^ (6 - places.length) : Nat))
  | _ => none

def readTime? : Text → Option Int
  | [] => some 0
  | 'T' :: c :: t =>
    let (hours, t) := readPart 'H' (c :: t)
    let (minutes, t) := readPart 'M' t
    (readSeconds? t).map fun seconds => 3600000000 * hours + 60000000 * minutes + seconds
  | _ => none

def read? : Text → Option Interval
  | 'P' :: c :: t =>
    let (years, t) := readPart 'Y' (c :: t)
    let (months, t) := readPart 'M' t
    let (days, t) := readPart 'D' t
    (readTime? t).map fun micros => ⟨micros, days, 12 * years + months⟩
  | _ => none

theorem signRead {sign : Text} {σ : Int} (signed : Sign sign σ) {digits : Text} (filled : digits ≠ [])
    (all : ∀ c ∈ digits, c.isDigit) (rest : Text) : readSign (sign ++ (digits ++ rest)) = (σ, digits ++ rest) := by
  cases signed with
  | minus => rfl
  | plus =>
    obtain ⟨d, digits, rfl⟩ := List.exists_cons_of_ne_nil filled
    have digit : d.isDigit := all d List.mem_cons_self
    have unsigned : d ≠ '-' := by
      rintro rfl
      contradiction
    simp [readSign, unsigned]

inductive Begins (marks : List Char) : Text → Prop
  | nothing : Begins marks []
  | time (t : Text) : Begins marks ('T' :: t)
  | part {sign digits : Text} {σ : Int} (signed : Sign sign σ) (filled : digits ≠ []) (all : ∀ c ∈ digits, c.isDigit)
      {mark : Char} (listed : mark ∈ marks) (rest : Text) : Begins marks (sign ++ (digits ++ mark :: rest))

variable {unit : Char} {marks : List Char} {t rest : Text} {n : Int}

theorem Begins.more (begins : Begins marks t) (unit : Char) : Begins (unit :: marks) t := by
  cases begins with
  | nothing => exact .nothing
  | time t => exact .time t
  | part signed filled all listed rest => exact .part signed filled all (List.mem_cons_of_mem unit listed) rest

theorem Part.begins (part : Part unit t n) (begins : Begins marks rest) : Begins (unit :: marks) (t ++ rest) := by
  cases part with
  | absent => exact begins.more unit
  | @present sign digits σ signed filled all =>
    have split : sign ++ (digits ++ [unit]) ++ rest = sign ++ (digits ++ unit :: rest) := by simp
    exact split ▸ .part signed filled all List.mem_cons_self rest

theorem Seconds.begins (seconds : Seconds t n) : Begins ['S', '.'] t := by
  cases seconds with
  | whole part => exact List.append_nil t ▸ (part.begins .nothing : Begins ['S', '.'] (t ++ []))
  | decimal signed filled all => exact .part signed filled all (by decide) _

theorem Time.begins (time : Time t n) : Begins [] t := by
  cases time with
  | absent => exact .nothing
  | present => exact .time _

theorem digitsRead {digits : Text} (all : ∀ c ∈ digits, c.isDigit) (mark : Char) (other : mark.isDigit = false)
    (rest : Text) : Text.spanDigits (digits ++ mark :: rest) = (digits, mark :: rest) :=
  Placeholder.spanDigitsAppend all (by simp [other])

theorem partSkipped (begins : Begins marks t) (digitless : ∀ c ∈ marks, c.isDigit = false) (other : unit ∉ marks) :
    readPart unit t = (0, t) := by
  cases begins with
  | nothing => rfl
  | time => rfl
  | @part sign digits σ signed filled all mark listed rest =>
    have unlike : mark ≠ unit := fun same => other (same ▸ listed)
    have span := digitsRead all mark (digitless mark listed) rest
    have signRead := signRead signed filled all (mark :: rest)
    obtain ⟨d, digits, rfl⟩ := List.exists_cons_of_ne_nil filled
    simp only [readPart, signRead, span, if_neg unlike]

theorem partRead (part : Part unit t n) (letter : unit.isDigit = false) (begins : Begins marks rest)
    (digitless : ∀ c ∈ marks, c.isDigit = false) (other : unit ∉ marks) : readPart unit (t ++ rest) = (n, rest) := by
  cases part with
  | absent => exact partSkipped begins digitless other
  | @present sign digits σ signed filled all =>
    have split : sign ++ (digits ++ [unit]) ++ rest = sign ++ (digits ++ unit :: rest) := by simp
    have span := digitsRead all unit letter rest
    have signRead := signRead signed filled all (unit :: rest)
    obtain ⟨d, digits, rfl⟩ := List.exists_cons_of_ne_nil filled
    simp only [split, readPart, signRead, span, if_pos]

theorem secondsRead (seconds : Seconds t n) : readSeconds? t = some n := by
  cases seconds with
  | whole part =>
    cases part with
    | absent => rfl
    | @present sign digits σ signed filled all =>
      have span := digitsRead all 'S' rfl []
      have signRead := signRead signed filled all ['S']
      obtain ⟨d, digits, rfl⟩ := List.exists_cons_of_ne_nil filled
      simp only [readSeconds?, signRead, span]
  | @decimal sign digits places σ signed filled all some few allToo =>
    have span := digitsRead all '.' rfl (places ++ ['S'])
    have last := digitsRead allToo 'S' rfl []
    have signRead := signRead signed filled all ('.' :: (places ++ ['S']))
    have within : ¬(places.isEmpty ∨ 6 < places.length ∨ ['S'] ≠ ['S']) := by simp [some, few]
    obtain ⟨d, digits, rfl⟩ := List.exists_cons_of_ne_nil filled
    simp only [readSeconds?, signRead, span, last, if_neg within]

theorem timeRead (time : Time t n) : readTime? t = some n := by
  cases time with
  | absent => rfl
  | @present h m s hours minutes seconds hoursPart minutesPart secondsPart filled =>
    have last := secondsPart.begins
    have first := partRead hoursPart rfl (minutesPart.begins last) (by simp) (by decide)
    have second := partRead minutesPart rfl last (by simp) (by decide)
    obtain ⟨c, rest, whole⟩ := List.exists_cons_of_ne_nil filled
    rw [whole] at first ⊢
    simp only [readTime?, first, second, secondsRead secondsPart, Option.map_some]

theorem read {i : Interval} (means : Means t i) : read? t = some i := by
  cases means with
  | @duration y m d t years months days micros yearsPart monthsPart daysPart time filled =>
    have last := time.begins
    have first := partRead yearsPart rfl (monthsPart.begins (daysPart.begins last)) (by simp) (by decide)
    have second := partRead monthsPart rfl (daysPart.begins last) (by simp) (by decide)
    have third := partRead daysPart rfl last (by simp) (by decide)
    obtain ⟨c, rest, whole⟩ := List.exists_cons_of_ne_nil filled
    rw [whole] at first ⊢
    simp only [read?, first, second, third, timeRead time, Option.map_some]

theorem Means.unique {i j : Interval} (left : Means t i) (right : Means t j) : i = j :=
  Option.some.inj ((read left).symm.trans (read right))

end Duration
end TableGateway
