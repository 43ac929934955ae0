import TableGateway.Proofs.ArrayColumns
import TableGateway.Proofs.IntegerParameters
import TableGateway.Proofs.Patterns

/-! JSON arrays for parameters of an array type. The items are bound one by one, and the first that is refused takes
the array with it. What is sent for items of the element's own kind is read from a column as the same items. -/
namespace TableGateway

section
variable {α β ε : Type} {f : α → Except ε β} {xs : List α}

theorem exceptMapMCons (x : α) : (x :: xs).mapM f = (f x).bind fun y => (xs.mapM f).map (y :: ·) := by
  rw [List.mapM_cons]
  cases f x with
  | error e => rfl
  | ok y => cases xs.mapM f <;> rfl

theorem exceptMapRefused {x : Except ε α} {g : α → β} : (∃ e, x.map g = .error e) ↔ ∃ e, x = .error e := by
  cases x with
  | error e => exact ⟨fun _ => ⟨e, rfl⟩, fun _ => ⟨e, rfl⟩⟩
  | ok a => exact ⟨nofun, nofun⟩

theorem mapMRefused : (∃ x ∈ xs, ∃ e, f x = .error e) ↔ ∃ e, xs.mapM f = .error e := by
  induction xs with
  | nil => exact ⟨nofun, nofun⟩
  | cons x rest ih =>
    rw [exceptMapMCons, List.exists_mem_cons_iff]
    cases first : f x with
    | error e => exact ⟨fun _ => ⟨e, rfl⟩, fun _ => .inl ⟨e, rfl⟩⟩
    | ok y =>
      rw [Except.bind, exceptMapRefused, ← ih]
      exact or_iff_right nofun

end

theorem unsignedRounded {n : WholeNumber} (unsigned : 2 ^ 63 ≤ n.value) {k : Int}
    (value : (Binary.ofInt .double n.value).reading.value? = some (k : ℚ)) : 2 ^ 63 ≤ k := by
  have below := n.high
  obtain ⟨m, same⟩ := Int.eq_ofNat_of_zero_le (show 0 ≤ n.value by omega)
  rw [same] at unsigned below value
  have some : 0 < m := by omega
  have finite : BinaryFormat.double.nearest m 1 < BinaryFormat.double.infinity := by
    have grows : (m : ℚ) / (1 : Nat) ≤ (2 ^ 64 : Nat) / (1 : Nat) :=
      div_le_div_of_nonneg_right (by exact_mod_cast below.le) (by norm_num)
    exact Nat.lt_of_le_of_lt (BinaryFormat.nearestMono Nat.one_pos Nat.one_pos grows) (by decide +kernel)
  obtain ⟨c, d, p, q, reading, written, binade, rounds⟩ := Binary.ofRatioReading some Nat.one_pos finite false
  have least : BinaryFormat.double.Binade ((2 : ℚ) ^ 63) 11 :=
    ⟨by decide, by norm_num [BinaryFormat.double], .inr (by norm_num [BinaryFormat.double])⟩
  have exact : Rounds ((2 : ℚ) ^ 63 / 2 ^ (11 : Int)) (2 ^ 52) := by
    have quotient : (2 : ℚ) ^ 63 / 2 ^ (11 : Int) = (2 ^ 52 : Nat) := by norm_num
    rw [quotient]
    exact roundsNat _
  have size : (2 : ℚ) ^ 63 ≤ (m : ℚ) / (1 : Nat) := by
    rw [Nat.cast_one, div_one]
    exact_mod_cast unsigned
  have above := BinaryFormat.valueMono least exact binade rounds size
  have number : (c : ℚ) * 2 ^ p = k := by
    have sign : ¬((m : Int) < 0) := by omega
    rw [Binary.ofInt, decide_eq_false sign, Int.natAbs_natCast, reading, Reading.value?, Option.some.injEq] at value
    simpa using value
  rw [← written, number] at above
  have bound : ((2 ^ 63 : Int) : ℚ) ≤ k := by
    refine le_trans (le_of_eq ?_) above
    norm_num
  exact_mod_cast bound

namespace Binding

inductive Returned : Scalar → Prop
  | integer {s : Scalar} {width : Nat} (integer : IntegerType s width) : Returned s
  | boolean : Returned .bool
  | text : Returned .text
  | varchar : Returned .varchar

inductive Fitting : Scalar → Json → Prop
  | null (s : Scalar) : Fitting s .null
  | integer {s : Scalar} {width : Nat} (integer : IntegerType s width) {n : WholeNumber} (room : Room width n.value) :
      Fitting s (.whole n)
  | boolean (b : Bool) : Fitting .bool (.bool b)
  | text (t : Text) : Fitting .text (.string t)
  | varchar (t : Text) : Fitting .varchar (.string t)

/-- Items that no element can be: an integer out of range, and a nested array or object, save in TEXT[] and VARCHAR[].
There a nested array or object is not refused but bound as its JSON text. -/
inductive Unfit : Scalar → Json → Prop
  | array {s : Scalar} (other : ¬DataType.isText s) (items : List Json) : Unfit s (.array items)
  | object {s : Scalar} (other : ¬DataType.isText s) (fields : List (Text × Json)) : Unfit s (.object fields)
  | outside {s : Scalar} {width : Nat} (integer : IntegerType s width) {n : WholeNumber}
      (outside : ¬Room width n.value) : Unfit s (.whole n)

/-- The wire counts the elements of an array, and the bytes of each element, in 32 bits. -/
structure Counted (items : List Json) : Prop where
  count : items.length < 2 ^ 31
  short : ∀ t, .string t ∈ items → (Bytes.ofText t).length < 2 ^ 31

theorem Counted.tail {item : Json} {items : List Json} (counted : Counted (item :: items)) : Counted items :=
  ⟨Nat.lt_of_succ_lt counted.count, fun t member => counted.short t (List.mem_cons_of_mem item member)⟩

theorem bindArray (name : Text) (number lower : Nat) (element : DataType) (items : List Json) :
    bind (.json (.array items)) (.array name number lower element) =
      (items.mapM fun item => bind (Value.ofJson item) element).map fun elements =>
        some (ArrayWire.encode element.number lower elements) := by
  simp only [bind, plain, Value.ofJson]
  cases items.mapM fun item => bind (Value.ofJson item) element <;> rfl

theorem IntegerType.signed {s : Scalar} {width : Nat} (integer : IntegerType s width) {n : WholeNumber}
    (room : Room width n.value) : n.value < 2 ^ 63 := (integer.roomWithin room).2

theorem integerRead {s : Scalar} {width : Nat} (integer : IntegerType s width) {n : Int} (room : Room width n) :
    Row.scalar? s (Bytes.ofInt width n) = some (.ofInt n) := by
  obtain ⟨low, high⟩ := room
  have read : Row.scalar? s (Bytes.ofInt width n) = (Bytes.exactInt? width (Bytes.ofInt width n)).map .ofInt := by
    cases integer <;> rfl
  have fits : -(256 ^ width : Nat) ≤ 2 * n ∧ 2 * n < (256 ^ width : Nat) := by
    cases integer <;> constructor <;> omega
  rw [read, Bytes.exactIntOfInt fits.1 fits.2]
  rfl

theorem fittingSent {s : Scalar} {item : Json} (fitting : Fitting s item)
    (short : ∀ t, item = .string t → (Bytes.ofText t).length < 2 ^ 31) :
    ∃ e, bind (Value.ofJson item) (.scalar s) = .ok e ∧ Row.arrayItem? (Row.scalar? s) true e = some item ∧
      ∀ bs ∈ e, bs.length < 2 ^ 31 := by
  cases fitting with
  | null => exact ⟨none, rfl, rfl, nofun⟩
  | @integer _ width integer n room =>
    have sent := ((integerSends integer n.value).number _).mpr ⟨n.value, rfl, room, rfl⟩
    have signed := integer.signed room
    refine ⟨some (Bytes.ofInt width n.value), ?_, ?_, ?_⟩
    · rw [Value.ofJson, if_pos signed, bind, scalar, Int64.toInt_ofInt_of_le n.low signed, sent]
    · rw [Row.arrayItem?, integerRead integer room, Json.ofInt, dif_pos ⟨n.low, n.high⟩]
    · rintro bs ⟨⟩
      rw [Bytes.lengthOfInt]
      cases integer <;> decide
  | boolean b =>
    refine ⟨some (boolBytes b), rfl, ?_, ?_⟩
    · cases b <;> rfl
    · rintro bs ⟨⟩
      exact (by decide : 1 < 2 ^ 31)
  | text t | varchar t =>
    refine ⟨some (Bytes.ofText t), rfl, congrArg (Option.map Json.string) (Bytes.toTextOfText t), ?_⟩
    rintro bs ⟨⟩
    exact short t rfl

theorem fittingsSent {s : Scalar} {items : List Json} (fitting : ∀ item ∈ items, Fitting s item)
    (counted : Counted items) :
    ∃ elements, (items.mapM fun item => bind (Value.ofJson item) (.scalar s)) = .ok elements ∧
      elements.mapM (Row.arrayItem? (Row.scalar? s) true) = some items ∧ elements.length < 2 ^ 31 ∧
      ∀ bs, some bs ∈ elements → bs.length < 2 ^ 31 := by
  suffices each : ∃ elements, (items.mapM fun item => bind (Value.ofJson item) (.scalar s)) = .ok elements ∧
      elements.mapM (Row.arrayItem? (Row.scalar? s) true) = some items ∧ elements.length = items.length ∧
      ∀ bs, some bs ∈ elements → bs.length < 2 ^ 31 by
    obtain ⟨elements, bound, read, length, short⟩ := each
    exact ⟨elements, bound, read, length ▸ counted.count, short⟩
  induction items with
  | nil => exact ⟨[], rfl, rfl, rfl, nofun⟩
  | cons item rest ih =>
    obtain ⟨first, others⟩ := List.forall_mem_cons.mp fitting
    obtain ⟨e, sent, same, small⟩ := fittingSent first fun t string => counted.short t (string ▸ List.mem_cons_self)
    obtain ⟨elements, bound, read, length, short⟩ := ih others counted.tail
    refine ⟨e :: elements, ?_, ?_, congrArg (· + 1) length, fun bs member => ?_⟩
    · rw [exceptMapMCons, sent, bound]
      rfl
    · rw [List.mapM_cons, same, read]
      rfl
    · rcases List.mem_cons.mp member with rfl | later
      · exact small bs rfl
      · exact short bs later

theorem unfitRefused {s : Scalar} (returned : Returned s) {item : Json} (unfit : Unfit s item) :
    ∃ fault, bind (Value.ofJson item) (.scalar s) = .error fault := by
  cases unfit with
  | array other | object other =>
    refine ⟨.mismatch "a JSON document" s.entry.1, ?_⟩
    cases returned with
    | integer integer => cases integer <;> rfl
    | boolean => rfl
    | text | varchar => exact absurd rfl other
  | @outside width integer n outside =>
    have present : Value.ofJson (.whole n) ≠ .null ∧ Value.ofJson (.whole n) ≠ .json .null := by
      obtain ⟨filled, plain⟩ := Value.ofJsonPlain (j := .whole n) rfl nofun
      exact ⟨filled, plain .null⟩
    have without : ∀ k, (Value.ofJson (.whole n)).Denotes k → ¬Room width k := by
      intro k denotes room
      rw [Value.ofJson] at denotes
      split at denotes
      case isTrue signed =>
        cases denotes with
        | int => exact outside (Int64.toInt_ofInt_of_le n.low signed ▸ room)
      case isFalse unsigned =>
        cases denotes with
        | float value =>
          have large := unsignedRounded (not_lt.mp unsigned) value
          exact absurd (integer.roomWithin room).2 (not_lt.mpr large)
    have sends := scalarSends integer present
    rw [bind]
    cases result : scalar (Value.ofJson (.whole n)) s with
    | error fault => exact ⟨fault, rfl⟩
    | ok e =>
      cases e with
      | none => exact absurd result sends.present
      | some bs =>
        obtain ⟨k, denotes, room, -⟩ := (sends.number bs).mp result
        exact absurd room (without k denotes)

theorem returnedListed {s : Scalar} (returned : Returned s) (name : Text) (lower : Nat) {number : Nat}
    (known : DataType.arrayNumber? s = some number) :
    Row.ReadArray (.array name number lower (.scalar s)) (.scalar s) ∧ Row.isDocument (.scalar s) = false := by
  cases returned with
  | integer integer => cases integer <;> exact ⟨.scalar name lower known (by decide), by decide⟩
  | boolean | text | varchar => exact ⟨.scalar name lower known (by decide), by decide⟩

/-- An array of null and items of the element's own kind is sent and read as the same array, and one with an item that
cannot be bound is refused as a whole. In TEXT[] and VARCHAR[] a nested array or object can be bound: its JSON text is
sent as the element. -/
theorem arraysReturn (name : Text) (lower : Nat) {s : Scalar} (returned : Returned s) {number : Nat}
    (known : DataType.arrayNumber? s = some number) (items : List Json) :
    let type := DataType.array name number lower (.scalar s)
    let bound := bind (.json (.array items)) type
    ((∀ item ∈ items, Fitting s item) → Counted items →
      ∃ bs, bound = .ok (some bs) ∧ ∀ index, Row.column index type (some bs) = .ok (.array items)) ∧
    ((∃ item ∈ items, ∃ fault, bind (Value.ofJson item) (.scalar s) = .error fault) ↔
      ∃ fault, bound = .error fault) ∧
    ((∃ item ∈ items, Unfit s item) → ∃ fault, bound = .error fault) := by
  intro type bound
  have whole : (∃ item ∈ items, ∃ fault, bind (Value.ofJson item) (.scalar s) = .error fault) ↔
      ∃ fault, bound = .error fault := by
    rw [show bound = _ from bindArray name number lower (.scalar s) items, exceptMapRefused]
    exact mapMRefused
  refine ⟨fun fitting counted => ?_, whole, fun ⟨item, member, unfit⟩ => ?_⟩
  · obtain ⟨elements, sent, read, count, short⟩ := fittingsSent fitting counted
    obtain ⟨listed, plain⟩ := returnedListed returned name lower known
    obtain ⟨reader, single, array⟩ := Row.readArrayReader listed
    obtain rfl : Row.scalar? s = reader := Option.some.inj single
    refine ⟨ArrayWire.encode (Scalar.entry s).2 lower elements, ?_, fun index => ?_⟩
    · rw [show bound = _ from bindArray name number lower (.scalar s) items, sent]
      rfl
    · have carries : ArrayWire.Carries (ArrayWire.encode (Scalar.entry s).2 lower elements) elements :=
        .row _ _ _ elements (Bytes.lengthOfNat 4 _) (Bytes.lengthOfNat 4 _) (Bytes.lengthOfNat 4 _) count short
      rw [Row.columnFound array, Row.arrayEntries _ _ (ArrayWire.decodeCarried carries), plain]
      exact congrArg (Option.map Json.array) read
  · exact whole.mp ⟨item, member, unfitRefused returned unfit⟩

theorem smallIntegersReturn :
    let low : WholeNumber := ⟨-2 ^ 15, by decide, by decide⟩
    let high : WholeNumber := ⟨2 ^ 15 - 1, by decide, by decide⟩
    let behind : WholeNumber := ⟨2 ^ 15, by decide, by decide⟩
    let type := DataType.array "_int2" 1005 1 (.scalar .int2)
    (∃ bs, bind (.json (.array [.whole low, .null, .whole high])) type = .ok (some bs) ∧
      ∀ index, Row.column index type (some bs) = .ok (.array [.whole low, .null, .whole high])) ∧
    (∃ bs, bind (.json (.array [])) type = .ok (some bs) ∧ ∀ index, Row.column index type (some bs) = .ok (.array [])) ∧
    (∃ fault, bind (.json (.array [.null, .whole behind])) type = .error fault) ∧
    ∃ fault, bind (.json (.array [.whole low, .array []])) type = .error fault := by
  intro low high behind type
  have known : DataType.arrayNumber? .int2 = some 1005 := by decide +kernel
  have returns := arraysReturn "_int2" 1 (.integer .two) known
  have lowFits : Fitting .int2 (.whole low) := .integer .two (by decide)
  have highFits : Fitting .int2 (.whole high) := .integer .two (by decide)
  refine ⟨(returns _).1 ?_ ⟨by decide, ?_⟩, (returns _).1 nofun ⟨by decide, nofun⟩, (returns _).2.2 ?_,
    (returns _).2.2 ?_⟩
  · simpa using ⟨lowFits, .null .int2, highFits⟩
  · simp
  · exact ⟨.whole behind, by simp, .outside .two (by decide)⟩
  · exact ⟨.array [], by simp, .array (by decide) []⟩

end Binding
end TableGateway
