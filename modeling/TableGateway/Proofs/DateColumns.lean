import TableGateway.Binding
import TableGateway.Proofs.Wire
import TableGateway.Proofs.WrittenDates
import TableGateway.Row

/-! Dates and moments that are read from a column and written back. The text that a row has for them is read again
as the same date or moment, so the bytes that are sent are those that came. -/
namespace TableGateway
namespace Text

theorem paddedSolid (width n : Nat) : ∀ c ∈ padded width n, ¬ isBlank c :=
  fun _ member => digitSolid (paddedDigits member)

end Text

theorem Date.printSolid (d : Date) : ∀ c ∈ d.print, ¬ isBlank c := by
  have year : ∀ c ∈ printYear d.year, ¬ isBlank c := by
    unfold printYear
    split
    · exact Text.paddedSolid 4 _
    · exact List.forall_mem_cons.mpr ⟨by split <;> decide, Text.paddedSolid 4 _⟩
  simp only [print, List.forall_mem_append, List.forall_mem_cons]
  exact ⟨⟨year, by decide, Text.paddedSolid 2 _⟩, by decide, Text.paddedSolid 2 _⟩

theorem Clock.printSolid (c : Clock) : ∀ d ∈ c.print, ¬ isBlank d := by
  have fraction : ∀ nano, ∀ d ∈ printFraction nano, ¬ isBlank d := by
    intro nano
    have point : ¬ isBlank '.' := by decide
    unfold printFraction
    split
    · nofun
    · split
      · exact List.forall_mem_cons.mpr ⟨point, Text.paddedSolid 3 _⟩
      · split <;> exact List.forall_mem_cons.mpr ⟨point, Text.paddedSolid _ _⟩
  have colon : ¬ isBlank ':' := by decide
  simp only [print, List.forall_mem_append, List.forall_mem_cons]
  exact ⟨⟨⟨Text.paddedSolid 2 _, colon, Text.paddedSolid 2 _⟩, colon, Text.paddedSolid 2 _⟩, fraction _⟩

theorem Date.readPrint {d : Date} (valid : d.valid) : read? d.print = some d := by
  have written : DateFormat.items? {} (DateFormat.dateItems .loose []) (d.print ++ []) =
      some { year := d.year, month := d.month, day := d.day } :=
    DateFormat.dateRead (.inl rfl) (.inl rfl) (validBounded valid) []
  rw [List.append_nil] at written
  exact (congrArg (Option.bind · WrittenDate.date?) written).trans (if_pos valid)

namespace Stamp

theorem printSolid (s : Stamp) : ∀ c ∈ s.print, ¬ isBlank c := by
  simp only [print, List.forall_mem_append, List.forall_mem_cons]
  exact ⟨Date.printSolid _, by decide, Clock.printSolid _⟩

variable {s : Stamp}

theorem settledBounded (bounded : s.clock.Bounded) : s.settled = s := by
  rw [settled, bounded.settled]

theorem readPlainPrint (valid : (Date.ofDay s.day).valid) (bounded : s.clock.Bounded) :
    readPlain? s.print = some s := by
  have written : DateFormat.items? {} (DateFormat.dateItems .loose (.mark ['T'] :: DateFormat.clockItems .loose []))
      (s.print ++ []) = some (.ofStamp s) :=
    DateFormat.stampRead (.inl rfl) valid bounded.within (.inl rfl) (List.mem_singleton_self 'T')
      (by simp [DateFormat.Unfractioned]) []
  rw [List.append_nil] at written
  have moment := WrittenDate.stampOfStamp valid bounded.within
  rw [settledBounded bounded] at moment
  have stamp : ((DateFormat.calendarDate ++ .mark ['T'] :: DateFormat.seconds).read? s.print).bind
      WrittenDate.stamp? = some s :=
    (congrArg (Option.bind · WrittenDate.stamp?) written).trans moment
  rw [readPlain?, DateFormat.wall, List.cons_append, List.findSome?_cons, stamp]

theorem readOffsetPrint (valid : (Date.ofDay s.day).valid) (within : s.clock.Within) :
    readOffset? s.printUniversal = some (.ofStamp s, s.settled) := by
  have moment := WrittenDate.universalOfStamp valid within
  have loose : (DateFormat.calendarDate ++ .mark ['T'] :: (DateFormat.seconds ++ [DateItem.looseOffset])).read?
      s.printUniversal = some (.ofStamp s) :=
    DateFormat.universalRead (.inl rfl) valid within (.inl rfl) (List.mem_singleton_self 'T') (.inl rfl)
  by_cases short : 0 ≤ (Date.ofDay s.day).year ∧ (Date.ofDay s.day).year ≤ 9999
  · have strict : DateFormat.strict.read? s.printUniversal = some (.ofStamp s) :=
      DateFormat.universalRead (.inr rfl) valid within (.inr short) (by decide) (.inr rfl)
    simp [readOffset?, strict, moment]
  · have refused : DateFormat.strict.read? s.printUniversal = none := by
      have year : s.printUniversal = Date.printYear (Date.ofDay s.day).year ++
          (s.printUniversal.drop (Date.printYear (Date.ofDay s.day).year).length) := by
        simp [printUniversal, print, Date.print]
      rw [year]
      exact DateFormat.signedYearRefused short _
    simp [readOffset?, refused, DateFormat.withOffset, DateFormat.wall, loose, moment]

theorem universalSolid (s : Stamp) : ∀ c ∈ s.printUniversal, ¬ isBlank c := by
  have zone : "+00:00".toList.all fun c => !isBlank c := by decide
  simp only [printUniversal, List.forall_mem_append]
  exact ⟨printSolid s, fun c member => by simpa using List.all_eq_true.mp zone c member⟩

theorem readUniversalSettled (valid : (Date.ofDay s.day).valid) (within : s.clock.Within) :
    readUniversal? s.printUniversal = some s.settled := by
  rw [readUniversal?, Text.trimSolid (universalSolid s), readOffsetPrint valid within]
  rfl

theorem readUniversalPrint (valid : (Date.ofDay s.day).valid) (bounded : s.clock.Bounded) :
    readUniversal? s.printUniversal = some s := by
  rw [readUniversalSettled valid bounded.within, settledBounded bounded]

theorem readWallPrint (valid : (Date.ofDay s.day).valid) (bounded : s.clock.Bounded) :
    readWall? s.print = some s := by
  rw [readWall?, Text.trimSolid (printSolid s), readPlainPrint valid bounded]
  rfl

end Stamp

namespace Row

theorem columnScalar {s : Scalar} {bs : Bytes} {j : Json} {index : Nat}
    (read : column index (.scalar s) (some bs) = .ok j) : scalar? s bs = some j := by
  simp only [column, reader?] at read
  split at read
  · cases read
    assumption
  · cases read

theorem stringRead {α : Type} {print : α → Text} {x : Option α} {j : Json} (read : stringOf print x = some j) :
    ∃ a, x = some a ∧ j = .string (print a) := by
  obtain ⟨a, found, rfl⟩ := Option.map_eq_some_iff.mp read
  exact ⟨a, found, rfl⟩

theorem stampFound {bs : Bytes} {s : Stamp} (found : stamp? bs = some s) :
    (Date.ofDay s.day).valid ∧ s.clock.Bounded ∧ Bytes.ofInt 8 s.toMicros = bs := by
  obtain ⟨n, number, made⟩ := Option.bind_eq_some_iff.mp found
  obtain ⟨valid, bounded, rfl⟩ := Stamp.ofMicrosFound made
  exact ⟨valid, bounded, Bytes.ofIntExact number⟩

end Row

namespace Binding

theorem datesReturn {s : Scalar} (dated : s = .date ∨ s = .timestamp ∨ s = .timestamptz) {bs : Bytes} {j : Json}
    {index : Nat} (read : Row.column index (.scalar s) (some bs) = .ok j) :
    (∃ t, j = .string t) ∧ bind (Value.ofJson j) (.scalar s) = .ok (some bs) := by
  have read := Row.columnScalar read
  rcases dated with rfl | rfl | rfl
  · obtain ⟨d, found, rfl⟩ := Row.stringRead read
    obtain ⟨n, number, day⟩ := Option.bind_eq_some_iff.mp found
    obtain ⟨-, valid, rfl⟩ := Date.ofDayFound day
    refine ⟨⟨_, rfl⟩, ?_⟩
    simp only [Value.ofJson, bind, scalar, ofText, Text.trimSolid (Date.printSolid d), Date.readPrint valid, sendOr,
      Bytes.ofIntExact number, sent]
  · obtain ⟨s, found, rfl⟩ := Row.stringRead read
    obtain ⟨valid, bounded, same⟩ := Row.stampFound found
    refine ⟨⟨_, rfl⟩, ?_⟩
    simp only [Value.ofJson, bind, scalar, ofText, Stamp.readWallPrint valid bounded, sendOr, same, sent]
  · obtain ⟨s, found, rfl⟩ := Row.stringRead read
    obtain ⟨valid, bounded, same⟩ := Row.stampFound found
    refine ⟨⟨_, rfl⟩, ?_⟩
    simp only [Value.ofJson, bind, scalar, ofText, Stamp.readUniversalPrint valid bounded, sendOr, same, sent]

theorem signedYearsReturn :
    (Row.column 0 (.scalar .date) (some [0, 57, 168, 31]) = .ok (.string "+12345-06-07") ∧
      bind (Value.ofJson (.string "+12345-06-07")) (.scalar .date) = .ok (some [0, 57, 168, 31])) ∧
    Row.column 0 (.scalar .timestamptz) (some [255, 26, 221, 58, 111, 50, 240, 1]) =
        .ok (.string "-0044-03-15T12:00:00.000001+00:00") ∧
      bind (Value.ofJson (.string "-0044-03-15T12:00:00.000001+00:00")) (.scalar .timestamptz) =
        .ok (some [255, 26, 221, 58, 111, 50, 240, 1]) := by
  have day : Row.column 0 (.scalar .date) (some [0, 57, 168, 31]) = .ok (.string "+12345-06-07") := by
    decide +kernel
  have moment : Row.column 0 (.scalar .timestamptz) (some [255, 26, 221, 58, 111, 50, 240, 1]) =
      .ok (.string "-0044-03-15T12:00:00.000001+00:00") := by
    decide +kernel
  exact ⟨⟨day, (datesReturn (.inl rfl) day).2⟩, moment, (datesReturn (.inr (.inr rfl)) moment).2⟩

end Binding
end TableGateway
