import Mathlib.Data.List.Forall2
import TableGateway.Proofs.Wire
import TableGateway.Row

/-! Arrays that are read from a column. What a server sends for a list of elements is taken apart into the same
elements, and each of them becomes what a column of its own type would give. Only arrays of documents have no place
for an element that is missing. -/
namespace TableGateway

namespace Bytes

variable {bs : Bytes} {width : Nat} (length : bs.length = width) (rest : Bytes)

include length

theorem readIntOver : readInt? width (bs ++ rest) = some (toInt bs, rest) := by
  rw [readInt?, splitWritten length]
  rfl

theorem readNatOver : readNat? width (bs ++ rest) = some (toNat bs, rest) := by
  rw [readNat?, splitWritten length]
  rfl

end Bytes

namespace ArrayWire

theorem readCount {n : Nat} (bound : n < 2 ^ 31) (rest : Bytes) :
    Bytes.readInt? 4 (Bytes.ofNat 4 n ++ rest) = some ((n : Int), rest) := by
  have same : Bytes.ofInt 4 n = Bytes.ofNat 4 n := by
    have small : (n : Int) % (256 ^ 4 : Nat) = n := Int.emod_eq_of_lt (by omega) (by omega)
    rw [Bytes.ofInt, small, Int.toNat_natCast]
  rw [← same, Bytes.readIntWritten (by omega) (by omega)]

theorem readElementWritten {e : Option Bytes} (short : ∀ bs ∈ e, bs.length < 2 ^ 31) (rest : Bytes) :
    readElement? (element e ++ rest) = some (e, rest) := by
  cases e with
  | none =>
    have written := @Bytes.readIntWritten 4 (-1) (by omega) (by omega) rest
    simp only [readElement?, element, written]
    rfl
  | some bs =>
    have length : ¬((bs.length : Int) < 0) := by omega
    simp [readElement?, element, List.append_assoc, readCount (short bs rfl), length, Bytes.splitWritten rfl]

theorem readElementsWritten {elements : List (Option Bytes)} (short : ∀ bs, some bs ∈ elements → bs.length < 2 ^ 31) :
    readElements? elements.length (elements.flatMap element) = some elements := by
  induction elements with
  | nil => rfl
  | cons e rest ih =>
    have first := readElementWritten (e := e) (fun bs member => short bs (member ▸ List.mem_cons_self))
      (rest.flatMap element)
    have others := ih fun bs member => short bs (List.mem_cons_of_mem e member)
    simp [readElements?, first, others]

/-- Bytes that bring a list of elements, in an array without dimensions or with one. Nobody asks for the flag, the
number of the element type or the lower bound. -/
inductive Carries : Bytes → List (Option Bytes) → Prop
  | empty (flag type : Bytes) (flagged : flag.length = 4) (typed : type.length = 4) :
      Carries (Bytes.ofNat 4 0 ++ flag ++ type) []
  | row (flag type lower : Bytes) (elements : List (Option Bytes)) (flagged : flag.length = 4)
      (typed : type.length = 4) (begun : lower.length = 4) (count : elements.length < 2 ^ 31)
      (short : ∀ bs, some bs ∈ elements → bs.length < 2 ^ 31) :
      Carries (Bytes.ofNat 4 1 ++ flag ++ type ++ Bytes.ofNat 4 elements.length ++ lower ++ elements.flatMap element)
        elements

theorem decodeCarried {bs : Bytes} {elements : List (Option Bytes)} (carries : Carries bs elements) :
    decode? bs = some elements := by
  cases carries with
  | empty flag type flagged typed =>
    have ends : Bytes.readNat? 4 type = some (Bytes.toNat type, []) := by simpa using Bytes.readNatOver typed []
    simp only [decode?, List.append_assoc, readCount (n := 0) (by decide), Bytes.readIntOver flagged, ends,
      Option.bind_eq_bind, Option.bind_some]
    rfl
  | row flag type lower elements flagged typed begun count short =>
    have some : ¬((elements.length : Int) < 0) := by omega
    simp only [decode?, List.append_assoc, readCount (n := 1) (by decide), Bytes.readIntOver flagged,
      Bytes.readNatOver typed, readCount count, Bytes.readIntOver begun, Option.bind_eq_bind, Option.bind_some, some,
      if_false, Int.toNat_natCast]
    exact readElementsWritten short

end ArrayWire

namespace Row

section
variable {α β : Type} {f : α → Option β} {xs : List α}

theorem mapMEach (each : ∀ x ∈ xs, ∃ y, f x = some y) :
    ∃ ys, xs.mapM f = some ys ∧ List.Forall₂ (fun x y => f x = some y) xs ys := by
  induction xs with
  | nil => exact ⟨[], rfl, .nil⟩
  | cons x rest ih =>
    obtain ⟨⟨y, first⟩, others⟩ := List.forall_mem_cons.mp each
    obtain ⟨ys, mapped, related⟩ := ih others
    refine ⟨y :: ys, ?_, .cons first related⟩
    rw [List.mapM_cons, first, mapped]
    rfl

theorem mapMFails {x : α} (member : x ∈ xs) (fails : f x = none) : xs.mapM f = none := by
  induction xs with
  | nil => cases member
  | cons y rest ih =>
    rw [List.mapM_cons]
    cases first : f y with
    | none => rfl
    | some z =>
      have other : x ∈ rest := (List.mem_cons.mp member).resolve_left fun same => by simp [← same, fails] at first
      rw [ih other]
      rfl

end

inductive ReadArray : DataType → DataType → Prop
  | scalar (name : Text) (lower : Nat) {s : Scalar} {number : Nat} (known : DataType.arrayNumber? s = some number)
      (read : s ≠ .oid ∧ s ≠ .time ∧ s ≠ .unknown) : ReadArray (.array name number lower (.scalar s)) (.scalar s)
  | enumeration (name : Text) (number lower : Nat) (label : Text) (labelled : Nat) :
      ReadArray (.array name number lower (.enumeration label labelled)) (.enumeration label labelled)

def isDocument (type : DataType) : Bool := type = .scalar .json ∨ type = .scalar .jsonb

theorem readArrayReader {type element : DataType} (listed : ReadArray type element) :
    ∃ read, reader? element = some read ∧ reader? type = some (array? read (!isDocument element)) := by
  cases listed with
  | @scalar name lower s number known read =>
    obtain ⟨oid, time, unknown⟩ := read
    refine ⟨scalar? s, rfl, ?_⟩
    simp [reader?, isKnownArray, known, elementReader?, oid, time, unknown, isDocument]
  | enumeration =>
    exact ⟨label?, rfl, rfl⟩

def arrayItem? (read : Bytes → Option Json) (missing : Bool) : Option Bytes → Option Json
  | some bs => read bs
  | none => if missing then some .null else none

theorem arrayEntries (read : Bytes → Option Json) (missing : Bool) {bs : Bytes} {elements : List (Option Bytes)}
    (decoded : ArrayWire.decode? bs = some elements) :
    array? read missing bs = (elements.mapM (arrayItem? read missing)).map .array := by
  have entries : (fun element => match element with
      | some bs => read bs
      | none => if missing then some .null else none) = arrayItem? read missing := by
    funext element
    cases element <;> rfl
  rw [array?, decoded, Option.map_eq_bind]
  exact congrArg (fun entry => (elements.mapM entry).bind (some ∘ Json.array)) entries

def Item (index : Nat) (element : DataType) : Option Bytes → Json → Prop
  | none, item => item = .null
  | some bs, item => column index element (some bs) = .ok item

theorem columnFound {type : DataType} {read : Bytes → Option Json} (reader : reader? type = some read) (index : Nat)
    (bs : Bytes) (j : Json) : column index type (some bs) = .ok j ↔ read bs = some j := by
  simp only [column, reader]
  cases read bs with
  | some k => simp
  | none => simp

theorem arraysDecoded {type element : DataType} (listed : ReadArray type element) {bs : Bytes}
    {elements : List (Option Bytes)} (carries : ArrayWire.Carries bs elements) (index : Nat)
    (valid : ∀ e, some e ∈ elements → ∃ j, column index element (some e) = .ok j) :
    (¬(isDocument element ∧ none ∈ elements) →
      ∃ items, column index type (some bs) = .ok (.array items) ∧
        List.Forall₂ (Item index element) elements items) ∧
    (isDocument element ∧ none ∈ elements → column index type (some bs) = .error (.unreadable index)) := by
  obtain ⟨read, single, whole⟩ := readArrayReader listed
  have entries := arrayEntries read (!isDocument element) (ArrayWire.decodeCarried carries)
  refine ⟨fun full => ?_, fun ⟨document, missing⟩ => ?_⟩
  · have each : ∀ e ∈ elements, ∃ j, arrayItem? read (!isDocument element) e = some j := by
      intro e member
      cases e with
      | none =>
        have plain : isDocument element = false := Bool.eq_false_iff.mpr fun document => full ⟨document, member⟩
        exact ⟨.null, by rw [plain]; rfl⟩
      | some bs =>
        obtain ⟨j, found⟩ := valid bs member
        exact ⟨j, (columnFound single index bs j).mp found⟩
    obtain ⟨items, mapped, related⟩ := mapMEach each
    refine ⟨items, (columnFound whole index bs _).mpr ?_, related.imp fun e item found => ?_⟩
    · rw [entries, mapped]
      rfl
    · cases e with
      | none =>
        rw [arrayItem?] at found
        split at found
        · exact (Option.some.inj found).symm
        · cases found
      | some bs => exact (columnFound single index bs item).mpr found
  · have refused : arrayItem? read (!isDocument element) none = none := by
      rw [document]
      rfl
    have unread : array? read (!isDocument element) bs = none := by
      rw [entries, mapMFails missing refused]
      rfl
    simp only [column, whole, unread]

theorem labelsDecoded :
    let type : DataType := .array "_mood" 90001 1 (.enumeration "mood" 90000)
    let bs : Bytes := [0, 0, 0, 1, 0, 0, 0, 1, 0, 1, 95, 144, 0, 0, 0, 3, 0, 0, 0, 1] ++
      [0, 0, 0, 0, 255, 255, 255, 255, 0, 0, 0, 2, 111, 107]
    ReadArray type (.enumeration "mood" 90000) ∧ ArrayWire.Carries bs [some [], none, some [111, 107]] ∧
      (∀ e, some e ∈ [some [], none, some [111, 107]] →
        ∃ j, column 0 (.enumeration "mood" 90000) (some e) = .ok j) ∧
      ∃ items, column 0 type (some bs) = .ok (.array items) ∧
        List.Forall₂ (Item 0 (.enumeration "mood" 90000)) [some [], none, some [111, 107]] items := by
  intro type bs
  have listed : ReadArray type (.enumeration "mood" 90000) := .enumeration "_mood" 90001 1 "mood" 90000
  have carries : ArrayWire.Carries bs [some [], none, some [111, 107]] :=
    .row [0, 0, 0, 1] [0, 1, 95, 144] [0, 0, 0, 1] [some [], none, some [111, 107]] rfl rfl rfl (by decide) (by simp)
  have valid : ∀ e, some e ∈ [some [], none, some [111, 107]] →
      ∃ j, column 0 (.enumeration "mood" 90000) (some e) = .ok j := by
    intro e member
    have one : e = [] ∨ e = [111, 107] := by simpa using member
    rcases one with rfl | rfl
    · exact ⟨.string [], by decide +kernel⟩
    · exact ⟨.string "ok", by decide +kernel⟩
  exact ⟨listed, carries, valid, (arraysDecoded listed carries 0 valid).1 (by decide)⟩

theorem missingDocumentRefused :
    let bs : Bytes := [0, 0, 0, 1, 0, 0, 0, 1, 0, 0, 14, 218, 0, 0, 0, 2, 0, 0, 0, 1] ++
      [0, 0, 0, 2, 1, 49, 255, 255, 255, 255]
    ReadArray (.array "_jsonb" 3807 1 (.scalar .jsonb)) (.scalar .jsonb) ∧
      ArrayWire.Carries bs [some [1, 49], none] ∧
      column 0 (.scalar .jsonb) (some [1, 49]) = .ok (.whole ⟨1, by decide, by decide⟩) ∧
      column 0 (.scalar .jsonb) none = .ok .null ∧
      column 0 (.array "_jsonb" 3807 1 (.scalar .jsonb)) (some bs) = .error (.unreadable 0) := by
  intro bs
  refine ⟨.scalar "_jsonb" 1 (by decide +kernel) (by decide), ?_, by decide +kernel, rfl, by decide +kernel⟩
  exact .row [0, 0, 0, 1] [0, 0, 14, 218] [0, 0, 0, 1] [some [1, 49], none] rfl rfl rfl (by decide) (by simp)

end Row
end TableGateway
