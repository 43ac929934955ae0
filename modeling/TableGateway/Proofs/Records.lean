import Mathlib.Data.List.Induction
import TableGateway.Proofs.Transcript

/-! Rows as records. A record has the names of the columns in the order in which they first come, and under each name
what the last column of that name holds. The first column that cannot be read is the one that is reported, and there is
no record then. Rows are read in order, and an error behind them counts only when all of them were read. -/
namespace TableGateway

namespace Record

def putAll (r : Record) (fields : List (Text × Json)) : Record :=
  fields.foldl (fun r field => put r field.1 field.2) r

structure Merges (fields : List (Text × Json)) (r : Record) : Prop where
  names : keys r = (fields.map Prod.fst).eraseDups
  last : ∀ before name value after, fields = before ++ (name, value) :: after → name ∉ after.map Prod.fst →
    get? r name = some value

theorem getCons (key : Text) (held : Json) (rest : Record) (name : Text) :
    get? ((key, held) :: rest) name = if name = key then some held else get? rest name := by
  rw [get?, List.lookup_cons]
  by_cases same : name = key
  · rw [if_pos same, beq_iff_eq.mpr same]
  · rw [if_neg same, beq_eq_false_iff_ne.mpr same, get?]

theorem getPut (r : Record) (name : Text) (value : Json) (other : Text) :
    get? (put r name value) other = if other = name then some value else get? r other := by
  induction r with
  | nil => rw [put, getCons]
  | cons field rest ih =>
    obtain ⟨key, held⟩ := field
    by_cases replaced : key = name
    · subst replaced
      rw [put, if_pos rfl, getCons, getCons]
      split <;> rfl
    · rw [put, if_neg replaced, getCons, getCons, ih]
      by_cases found : other = key
      · have kept : other ≠ name := fun same => replaced (found.symm.trans same)
        rw [if_pos found, if_neg kept, if_pos found]
      · rw [if_neg found, if_neg found]

theorem getUntouched {fields : List (Text × Json)} {name : Text} (absent : name ∉ fields.map Prod.fst) (r : Record) :
    get? (putAll r fields) name = get? r name := by
  induction fields generalizing r with
  | nil => rfl
  | cons field rest ih =>
    rw [List.map_cons, List.mem_cons, not_or] at absent
    exact (ih absent.2 (put r field.1 field.2)).trans ((getPut r _ _ _).trans (if_neg absent.1))

theorem keysPutAll (fields : List (Text × Json)) :
    keys (putAll [] fields) = (fields.map Prod.fst).eraseDups := by
  induction fields using List.reverseRecOn with
  | nil => rfl
  | append_singleton before field ih =>
    have put : putAll [] (before ++ [field]) = put (putAll [] before) field.1 field.2 := List.foldl_append
    rw [put, keysPut, ih, List.map_append, List.eraseDups_append]
    by_cases known : field.1 ∈ before.map Prod.fst
    · simp [List.removeAll, known]
    · simp [List.removeAll, known, List.eraseDups_cons]

theorem mergesPutAll (fields : List (Text × Json)) : Merges fields (putAll [] fields) where
  names := keysPutAll fields
  last := by
    rintro before name value after rfl absent
    have put : putAll [] (before ++ (name, value) :: after) = putAll (put (putAll [] before) name value) after :=
      List.foldl_append
    rw [put, getUntouched absent, getPut, if_pos rfl]

end Record

namespace Row

open Transcript (Passes Stops)

def cell (values : List (Option Bytes)) (placed : Column × Nat) : Except DecodeCause Json :=
  column placed.2 placed.1.type (values.getD placed.2 none)

def sought (values : List (Option Bytes)) (placed : Column × Nat) : Column × Option Bytes :=
  (placed.1, values.getD placed.2 none)

theorem cellsSought (columns : List Column) (values : List (Option Bytes)) :
    columns.zip (values ++ List.replicate columns.length none) = columns.zipIdx.map (sought values) := by
  refine List.ext_getElem (by simp) fun i here there => ?_
  have within : i < columns.length := by simpa using there
  simp only [List.getElem_zip, List.getElem_map, List.getElem_zipIdx, sought, List.getElem_append, Nat.zero_add]
  split
  · rename_i given
    simp [given]
  · rename_i ended
    simp [Nat.le_of_not_lt ended]

variable {values : List (Option Bytes)} {columns : List Column}

theorem decodeCell (values : List (Option Bytes)) (index : Nat) (r : Record) (c : Column)
    (rest : List (Column × Option Bytes)) :
    decodeFrom index r (sought values (c, index) :: rest) = match cell values (c, index) with
      | .ok j => decodeFrom (index + 1) (Record.put r c.name j) rest
      | .error cause => .error (.decode c.name cause) := rfl

theorem decodePasses {index : Nat} {items : List Json} (passes : Passes (cell values) (columns.zipIdx index) items)
    (r : Record) : decodeFrom index r ((columns.zipIdx index).map (sought values)) =
      .ok (Record.putAll r ((columns.map Column.name).zip items)) := by
  induction columns generalizing index items r with
  | nil => rfl
  | cons c rest ih =>
    cases passes with
    | cons passed others =>
      rw [List.zipIdx_cons, List.map_cons, decodeCell, passed]
      exact ih others _

theorem decodeStops {index i : Nat} {cause : DecodeCause} (stops : Stops (cell values) (columns.zipIdx index) i cause)
    (r : Record) : ∃ c, columns[i]? = some c ∧
      decodeFrom index r ((columns.zipIdx index).map (sought values)) = .error (.decode c.name cause) := by
  induction columns generalizing index i r with
  | nil => cases stops
  | cons c rest ih =>
    rw [List.zipIdx_cons, List.map_cons, decodeCell]
    cases stops with
    | here failed =>
      rw [failed]
      exact ⟨c, rfl, rfl⟩
    | @later _ j _ i _ passed stops =>
      rw [passed]
      exact ih stops _

theorem rowPasses {items : List Json} (passes : Passes (cell values) columns.zipIdx items) :
    ∃ r, decode columns values = .ok r ∧ Record.Merges ((columns.map Column.name).zip items) r := by
  refine ⟨_, ?_, Record.mergesPutAll _⟩
  rw [decode, cellsSought, decodePasses passes]

theorem rowStops {i : Nat} {cause : DecodeCause} (stops : Stops (cell values) columns.zipIdx i cause) :
    ∃ c, columns[i]? = some c ∧ decode columns values = .error (.decode c.name cause) := by
  rw [decode, cellsSought]
  exact decodeStops stops []

theorem rowFault {fault : Fault} (failed : decode columns values = .error fault) :
    ∃ name cause, fault = .decode name cause := by
  rcases Transcript.passesOrStops (cell values) columns.zipIdx with ⟨items, passes⟩ | ⟨i, cause, stops⟩
  · obtain ⟨r, decoded, -⟩ := rowPasses passes
    cases decoded.symm.trans failed
  · obtain ⟨c, -, stopped⟩ := rowStops stops
    exact ⟨c.name, cause, Except.error.inj (failed.symm.trans stopped)⟩

end Row

namespace Channel

open Transcript (Passes Stops)

theorem stoppedFault {columns : List Column} {rows : List (List (Option Bytes))} {i : Nat} {fault : Fault}
    (stops : Stops (Row.decode columns) rows i fault) : ∃ name cause, fault = .decode name cause := by
  induction stops with
  | here failed => exact Row.rowFault failed
  | later _ _ ih => exact ih

theorem collectPasses {reply : Reply} {records : List Record}
    (passes : Passes (Row.decode reply.columns) reply.rows records) :
    collect reply = match reply.error with
      | none => .ok ⟨records, reply.affected⟩
      | some (_, code) => .error (.query (.server code)) := by
  cases error : reply.error with
  | none => exact Transcript.collectedResult (.completed passes error)
  | some refusal => exact Transcript.collectedResult (.refused passes error)

theorem collectReported {reply : Reply} {fault : BackendFault} (reported : collect reply = .error (.query fault)) :
    ∃ records, Passes (Row.decode reply.columns) reply.rows records := by
  rcases Transcript.passesOrStops (Row.decode reply.columns) reply.rows with passes | ⟨i, other, stops⟩
  · exact passes
  · obtain ⟨name, cause, rfl⟩ := stoppedFault stops
    cases reported.symm.trans (Transcript.collectedResult (.undecodable stops))

theorem rowsCollected :
    (∀ (columns : List Column) (values : List (Option Bytes)),
      (∀ items, Passes (Row.cell values) columns.zipIdx items →
        ∃ r, Row.decode columns values = .ok r ∧ Record.Merges ((columns.map Column.name).zip items) r) ∧
      (∀ i cause, Stops (Row.cell values) columns.zipIdx i cause →
        ∃ c, columns[i]? = some c ∧ Row.decode columns values = .error (.decode c.name cause)) ∧
      ((∃ items, Passes (Row.cell values) columns.zipIdx items) ∨
        ∃ i cause, Stops (Row.cell values) columns.zipIdx i cause)) ∧
    ∀ reply : Reply,
      (∀ records, Passes (Row.decode reply.columns) reply.rows records →
        collect reply = match reply.error with
          | none => .ok ⟨records, reply.affected⟩
          | some (_, code) => .error (.query (.server code))) ∧
      (∀ i fault, Stops (Row.decode reply.columns) reply.rows i fault → collect reply = .error fault) ∧
      ∀ fault, collect reply = .error (.query fault) →
        ∃ records, Passes (Row.decode reply.columns) reply.rows records := by
  refine ⟨fun columns values => ⟨fun items => Row.rowPasses, fun i cause => Row.rowStops, ?_⟩, fun reply => ?_⟩
  · exact Transcript.passesOrStops _ _
  · refine ⟨fun records => collectPasses, fun i fault stops => ?_, fun fault => collectReported⟩
    exact Transcript.collectedResult (.undecodable stops)

theorem joinedRowsCollected :
    let columns : List Column := [⟨"id", .scalar .int2⟩, ⟨"name", .scalar .text⟩, ⟨"id", .scalar .int2⟩]
    let first : List (Option Bytes) := [some [0, 1], some [97], some [0, 2]]
    let second : List (Option Bytes) := [some [1], some [98], some [0, 3]]
    let items : List Json := [.ofInt 1, .string "a", .ofInt 2]
    let merged : Record := [("id", .ofInt 2), ("name", .string "a")]
    Passes (Row.cell first) columns.zipIdx items ∧
      Record.Merges ((columns.map Column.name).zip items) merged ∧
      Stops (Row.cell second) columns.zipIdx 0 (.unreadable 0) ∧
      Stops (Row.decode columns) [first, second] 1 (.decode "id" (.unreadable 0)) ∧
      collect { columns, rows := [first, second] } = .error (.decode "id" (.unreadable 0)) := by
  intro columns first second items merged
  obtain ⟨rows, replies⟩ := rowsCollected
  have passes : Passes (Row.cell first) columns.zipIdx items :=
    .cons (by decide +kernel) (.cons (by decide +kernel) (.cons (by decide +kernel) .nil))
  have stops : Stops (Row.cell second) columns.zipIdx 0 (.unreadable 0) := .here (by decide +kernel)
  obtain ⟨r, decoded, merges⟩ := (rows columns first).1 items passes
  have same : Row.decode columns first = .ok merged := by decide +kernel
  cases same.symm.trans decoded
  obtain ⟨c, placed, failed⟩ := (rows columns second).2.1 0 _ stops
  cases placed
  have later : Stops (Row.decode columns) [first, second] 1 (.decode "id" (.unreadable 0)) :=
    .later decoded (.here failed)
  exact ⟨passes, merges, stops, later, (replies { columns, rows := [first, second] }).2.1 1 _ later⟩

end Channel
end TableGateway
