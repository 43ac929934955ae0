import TableGateway.Calendar
import TableGateway.Text.Blank

/-! Written dates and times. A format lists what has to follow one another in a text; a text that has more
or less than that is refused. Of a text with an offset, the universal reading takes the moment it means and
the wall reading the time it says. -/
namespace TableGateway

inductive DatePart
  | year
  | month
  | day
  | hour
  | minute
  | second
  deriving DecidableEq, Repr

/-- One piece of a format. A loose number may be short and have blanks before it, and a loose year with a
sign may be long; an exact number has all its digits. A loose offset may leave out its minutes. -/
inductive DateItem
  | loose (part : DatePart)
  | exact (part : DatePart)
  | mark (choices : Text)
  | blanks
  | fraction
  | looseOffset
  | exactOffset
  deriving DecidableEq, Repr

abbrev DateFormat := List DateItem

structure WrittenDate where
  year : Int := 0
  month : Nat := 0
  day : Nat := 0
  hour : Nat := 0
  minute : Nat := 0
  second : Nat := 0
  nano : Nat := 0
  offset : Int := 0
  deriving DecidableEq, Repr

namespace DateFormat

def width (part : DatePart) : Nat := if part = .year then 4 else 2

def number? (most : Nat) (t : Text) : Option (Nat × Text) :=
  let digits := (t.take most).takeWhile Char.isDigit
  if digits.isEmpty then none else some (Text.toNat digits, t.drop digits.length)

def loose? (part : DatePart) (t : Text) : Option (Int × Text) :=
  let plain (most : Nat) (t : Text) : Option (Int × Text) := (number? most t).map fun (n, r) => ((n : Int), r)
  match part, Text.trimStart t with
  | .year, '-' :: r => (number? r.length r).map fun (n, r) => (-(n : Int), r)
  | .year, '+' :: r => plain r.length r
  | part, t => plain (width part) t

def fixed? (part : DatePart) (t : Text) : Option (Int × Text) :=
  let digits := t.take (width part)
  if digits.length = width part ∧ digits.all Char.isDigit then
    some ((Text.toNat digits : Int), t.drop (width part))
  else none

def nanos? (t : Text) : Option (Nat × Text) :=
  let digits := t.takeWhile Char.isDigit
  if digits.isEmpty then none
  else
    let kept := digits.take 9
    some (Text.toNat kept * 10 ^ (9 - kept.length), t.drop digits.length)

def pair? (bound : Nat) : Text → Option (Nat × Text)
  | a :: b :: rest =>
    if a.isDigit ∧ b.isDigit ∧ Text.digitValue a < bound then
      some (10 * Text.digitValue a + Text.digitValue b, rest)
    else none
  | _ => none

def offset? (exact : Bool) (t : Text) : Option (Int × Text) :=
  let after (sign : Int) (t : Text) : Option (Int × Text) := do
    let (hours, t) ← pair? 10 t
    let t ← if exact then
        match t with
        | ':' :: r => some r
        | _ => none
      else some (t.dropWhile fun c => c = ':' || isBlank c)
    let (minutes, t) ← if t.isEmpty ∧ !exact then some (0, t) else pair? 6 t
    if exact ∧ 24 ≤ hours then none else some (sign * (hours * 3600 + minutes * 60 : Nat), t)
  match t with
  | 'Z' :: r => some (0, r)
  | 'z' :: r => some (0, r)
  | '+' :: r => after 1 r
  | '-' :: r => after (-1) r
  | '\u2212' :: r => after (-1) r
  | _ => none

def set (w : WrittenDate) (part : DatePart) (n : Int) : WrittenDate :=
  match part with
  | .year => { w with year := n }
  | .month => { w with month := n.toNat }
  | .day => { w with day := n.toNat }
  | .hour => { w with hour := n.toNat }
  | .minute => { w with minute := n.toNat }
  | .second => { w with second := n.toNat }

def item? (w : WrittenDate) (t : Text) : DateItem → Option (WrittenDate × Text)
  | .loose part => (loose? part t).map fun (n, r) => (set w part n, r)
  | .exact part => (fixed? part t).map fun (n, r) => (set w part n, r)
  | .mark choices =>
    match t with
    | c :: r => if c ∈ choices then some (w, r) else none
    | [] => none
  | .blanks => some (w, Text.trimStart t)
  | .fraction =>
    match t with
    | '.' :: r => (nanos? r).map fun (n, r) => ({ w with nano := n }, r)
    | t => some (w, t)
  | .looseOffset => (offset? false (Text.trimStart t)).map fun (n, r) => ({ w with offset := n }, r)
  | .exactOffset => (offset? true t).map fun (n, r) => ({ w with offset := n }, r)

def items? (w : WrittenDate) : DateFormat → Text → Option WrittenDate
  | [], [] => some w
  | [], _ :: _ => none
  | item :: rest, t => do
    let (w, t) ← item? w t item
    items? w rest t

def read? (format : DateFormat) (t : Text) : Option WrittenDate := items? {} format t

end DateFormat

namespace WrittenDate

def date? (w : WrittenDate) : Option Date :=
  let d : Date := ⟨w.year, w.month, w.day⟩
  if d.valid then some d else none

def clock? (w : WrittenDate) : Option Clock :=
  if w.hour < 24 ∧ w.minute < 60 ∧ w.second ≤ 60 then
    let second := min w.second 59
    some ⟨w.hour * 3600 + w.minute * 60 + second, w.nano + (w.second - second) * 1000000000⟩
  else none

def stamp? (w : WrittenDate) : Option Stamp := do
  let d ← w.date?
  let c ← w.clock?
  some ⟨d.toDay, c⟩

def universal? (w : WrittenDate) : Option Stamp := do
  let s ← w.stamp?
  if w.offset.natAbs < 86400 then s.earlier? w.offset else none

end WrittenDate

namespace DateFormat

def calendarDate : DateFormat := [.loose .year, .mark ['-'], .loose .month, .mark ['-'], .loose .day]

def minutes : DateFormat := [.loose .hour, .mark [':'], .loose .minute]

def seconds : DateFormat := minutes ++ [.mark [':'], .loose .second, .fraction]

def strict : DateFormat :=
  [.exact .year, .mark ['-'], .exact .month, .mark ['-'], .exact .day, .mark ['t', 'T', ' '],
    .exact .hour, .mark [':'], .exact .minute, .mark [':'], .exact .second, .fraction, .exactOffset]

def wall : List DateFormat :=
  [calendarDate ++ .mark ['T'] :: seconds, calendarDate ++ .blanks :: seconds,
    calendarDate ++ .mark ['T'] :: minutes, calendarDate ++ .blanks :: minutes]

def withOffset : List DateFormat := wall.map (· ++ [.looseOffset])

end DateFormat

namespace Date

def read? (t : Text) : Option Date := (DateFormat.calendarDate.read? t).bind WrittenDate.date?

end Date

namespace Stamp

def readOffset? (t : Text) : Option (WrittenDate × Stamp) :=
  (DateFormat.strict :: DateFormat.withOffset).findSome? fun format => do
    let w ← format.read? t
    let s ← w.universal?
    some (w, s)

def readPlain? (t : Text) : Option Stamp :=
  (DateFormat.wall ++ [DateFormat.calendarDate]).findSome? fun format =>
    (format.read? t).bind WrittenDate.stamp?

def readUniversal? (t : Text) : Option Stamp :=
  ((readOffset? (Text.trim t)).map Prod.snd).orElse fun _ => readPlain? (Text.trim t)

def readWall? (t : Text) : Option Stamp :=
  (readPlain? (Text.trim t)).orElse fun _ => (readOffset? (Text.trim t)).bind fun (w, _) => w.stamp?

end Stamp
end TableGateway
