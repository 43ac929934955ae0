import TableGateway.Proofs.Numbering
import Mathlib.Data.List.Forall2

/-! Text and values of a statement keep step. There are as many values as placeholders, and they stand in the
order of the columns, payloads and filters that they are for. -/
namespace TableGateway
open Placeholder (Quiet numbers shift)

inductive Filter.Binds : Filter → List Value → Prop
  | list (column operator negated values) : Binds ⟨column, operator, negated, .list values⟩ values
  | null (column negated) : Binds ⟨column, .is, negated, .single .null⟩ []
  | bool (column negated b) : Binds ⟨column, .is, negated, .single (.bool b)⟩ []
  | document (column negated v) : Binds ⟨column, .contains, negated, .single v⟩ [.json v.toJson]
  | plain (column operator negated v) (document : operator ≠ .contains)
      (literal : operator = .is → v ≠ .null ∧ ∀ b, v ≠ .bool b) :
      Binds ⟨column, operator, negated, .single v⟩ [v]

theorem Filter.boundBinds (f : Filter) : f.Binds f.bound := by
  obtain ⟨column, operator, negated, operand⟩ := f
  cases operand with
  | list values => exact .list column operator negated values
  | single v =>
    by_cases document : operator = .contains
    · subst document
      have same : bound ⟨column, .contains, negated, .single v⟩ = [.json v.toJson] := by cases v <;> rfl
      exact same ▸ .document column negated v
    · by_cases test : operator = .is
      · subst test
        cases v with
        | null => exact .null column negated
        | bool b => exact .bool column negated b
        | _ => exact .plain column .is negated _ document (by simp)
      · have same : bound ⟨column, operator, negated, .single v⟩ = [v] := by
          cases operator <;> first | contradiction | (cases v <;> rfl)
        exact same ▸ .plain column operator negated v document fun is => absurd is test

namespace Query

def Supplies (q : Query) (statements : List Statement) : Prop :=
  match q.insert, q.update with
  | some rows, _ =>
    List.Forall₂ (fun row (s : Statement) => s.params.map some =
      (Record.keys (rows.headD [])).map fun name => (Record.get? row name).map Value.ofJson) rows statements
  | none, some fields => ∃ bound, List.Forall₂ Filter.Binds q.filters bound ∧
      statements.map Statement.params = [fields.map (fun field => Value.ofJson field.2) ++ bound.flatten]
  | none, none => ∃ bound, List.Forall₂ Filter.Binds q.filters bound ∧
      statements.map Statement.params = [bound.flatten]

variable {q : Query}

theorem keysFound {row : Record} {name : Text} (key : name ∈ Record.keys row) :
    (Record.get? row name).isSome := by
  obtain ⟨field, member, rfl⟩ := List.mem_map.mp key
  exact List.lookup_isSome_iff.mpr ⟨field, member, by simp⟩

theorem sameNamesKeys (names : List Text) (row : Record) :
    sameNames names row = ((Record.keys row).length = names.length &&
      names.all fun name => decide (name ∈ Record.keys row)) := by
  have found : ∀ name, (Record.get? row name).isSome = decide (name ∈ Record.keys row) := by
    intro name
    rw [Bool.eq_iff_iff, decide_eq_true_iff, Record.get?, List.lookup_isSome_iff, Record.keys, List.mem_map]
    exact exists_congr fun field => and_congr_right fun _ => beq_iff_eq.trans eq_comm
  simp only [sameNames, found, Record.keys, List.length_map]

theorem evenRows {names : List Text} {first : Record} {rest : List Record}
    (even : uneven? names (first :: rest) = none) :
    ∀ row ∈ rest, ∀ name ∈ names, (Record.get? row name).isSome := by
  intro row member name key
  have shifted : ((first :: rest).zipIdx.drop 1) = rest.zipIdx 1 := rfl
  rw [← List.zipIdx_map_fst 1 rest] at member
  obtain ⟨⟨same, index⟩, inside, rfl⟩ := List.mem_map.mp member
  rw [uneven?, shifted, List.find?_eq_none] at even
  have names := even _ inside
  simp only [sameNames, Bool.not_eq_true, Bool.not_eq_false', Bool.and_eq_true] at names
  exact List.all_eq_true.mp names.2 name key

theorem rowValuesFound {names : List Text} {row : Record}
    (found : ∀ name ∈ names, (Record.get? row name).isSome) :
    (rowValues names row).map some = names.map fun name => (Record.get? row name).map Value.ofJson := by
  rw [rowValues, List.map_map]
  refine List.map_congr_left fun name key => ?_
  obtain ⟨value, same⟩ := Option.isSome_iff_exists.mp (found name key)
  simp [same]

theorem insertedRows {rows : List Record} {statements : List Statement}
    (built : insertStatements q rows = .ok statements) :
    statements = rows.map (fun row =>
      ⟨insertText q (Record.keys (rows.headD [])), rowValues (Record.keys (rows.headD [])) row⟩) ∧
    ∀ row ∈ rows, ∀ name ∈ Record.keys (rows.headD []), (Record.get? row name).isSome := by
  cases rows with
  | nil => cases built; simp
  | cons first rest =>
    simp only [insertStatements] at built
    split at built
    · contradiction
    · rename_i even
      cases built
      refine ⟨rfl, fun row member => ?_⟩
      rcases List.mem_cons.mp member with rfl | later
      · exact fun name key => keysFound key
      · exact evenRows even row later

theorem plannedStatements {p : Plan} (planned : q.plan = .ok p) :
    q.misuse = none ∧ q.statements = .ok p.statements := by
  unfold plan at planned
  split at planned
  · contradiction
  · rename_i used
    obtain ⟨ss, built, rfl⟩ := Halt.mapOk.mp planned
    exact ⟨used, built⟩

theorem filtersBind (filters : List Filter) :
    List.Forall₂ Filter.Binds filters (filters.map Filter.bound) := by
  rw [List.forall₂_map_right_iff, List.forall₂_same]
  exact fun f _ => f.boundBinds

theorem insertedSupplied {rows : List Record} {statements : List Statement} (insert : q.insert = some rows)
    (built : insertStatements q rows = .ok statements) : q.Supplies statements := by
  obtain ⟨rfl, found⟩ := insertedRows built
  simp only [Supplies, insert]
  rw [List.forall₂_map_right_iff, List.forall₂_same]
  exact fun row member => rowValuesFound (found row member)

theorem insertedNumbered {rows : List Record} {statements : List Statement} (plain : q.Plain)
    (insert : q.insert = some rows) (built : insertStatements q rows = .ok statements) :
    ∀ s ∈ statements, numbers s.sql = (List.range' 1 s.params.length).map Text.ofNat := by
  obtain ⟨rfl, -⟩ := insertedRows built
  intro s member
  obtain ⟨row, inside, rfl⟩ := List.mem_map.mp member
  obtain ⟨first, rest, rfl⟩ := List.exists_cons_of_ne_nil (List.ne_nil_of_mem inside)
  have names := plain.insert (first :: rest) insert first List.mem_cons_self
  simpa [rowValues] using numbersInsert plain names

theorem updatedSupplied {fields : Record} (noInsert : q.insert = none) (update : q.update = some fields)
    (shifted : Text) : q.Supplies [q.updated fields shifted] := by
  simp only [Supplies, noInsert, update]
  exact ⟨q.filters.map Filter.bound, filtersBind q.filters, rfl⟩

theorem filteredSupplied {s : Statement} (noInsert : q.insert = none) (noUpdate : q.update = none)
    (bound : s.params = q.clause.params) : q.Supplies [s] := by
  simp only [Supplies, noInsert, noUpdate]
  refine ⟨q.filters.map Filter.bound, filtersBind q.filters, ?_⟩
  rw [← List.flatMap_def, List.map_singleton, bound]
  rfl

/-- A list in memory has fewer than 2 ^ 64 entries. -/
theorem planNumbersParameters {p : Plan} (planned : q.plan = .ok p) (plain : q.Plain)
    (sized : ∀ s ∈ p.statements, s.params.length < 2 ^ 64) :
    (∀ s ∈ p.statements, numbers s.sql = (List.range' 1 s.params.length).map Text.ofNat) ∧
      q.Supplies p.statements := by
  obtain ⟨-, built⟩ := plannedStatements planned
  unfold statements at built
  split at built
  · rename_i rows insert
    have built := Halt.faultOk.mp built
    exact ⟨insertedNumbered plain insert built, insertedSupplied insert built⟩
  · rename_i fields noInsert update
    obtain ⟨s, one, same⟩ := Halt.mapOk.mp built
    obtain ⟨named, shifted, shifts, rfl⟩ := updateBuilds one
    rw [← same, List.forall_mem_singleton] at sized ⊢
    have count : fields.length + q.clause.params.length < 2 ^ 64 := by simpa [updated] using sized
    exact ⟨numbersUpdate plain update named count shifts, updatedSupplied noInsert update shifted⟩
  · rename_i noInsert noUpdate delete
    rw [filteredBuilds built, List.forall_mem_singleton]
    exact ⟨numbersDelete plain, filteredSupplied noInsert noUpdate rfl⟩
  · rename_i noInsert noUpdate delete
    rw [filteredBuilds built, List.forall_mem_singleton]
    exact ⟨numbersSelect plain, filteredSupplied noInsert noUpdate rfl⟩

theorem listNumberedBehindPayload :
    let ids : List Value := (List.range 10).map fun i => .int (Int64.ofNat i)
    let q : Query :=
      { table := "users".toList
        filters := [.among "id".toList ids, ⟨"tags".toList, .contains, true, .single (.text "a".toList)⟩,
          ⟨"gone".toList, .is, false, .single .null⟩]
        update := some [("name".toList, .null)] }
    ∃ p, q.plan = .ok p ∧ q.Supplies p.statements ∧
      ∀ s ∈ p.statements, numbers s.sql = (List.range' 1 12).map Text.ofNat := by
  intro ids q
  have plain : q.Plain :=
    { table := by decide
      columns := nofun
      order := nofun
      filters := by decide
      insert := nofun
      update := by decide
      fragments := nofun }
  have planned := planUpdate (q := q) rfl rfl rfl nofun (by decide)
  have shifts : shift 1 q.clause.sql = some _ :=
    WhereClause.shiftPlainCondition plain.filters plain.fragments (by decide) (by decide)
  rw [List.length_singleton, shifts] at planned
  have sized : ∀ s ∈ [q.updated [("name".toList, .null)] (WhereClause.of q.filters q.fragments 2).sql],
      s.params.length = 12 := List.forall_mem_singleton.mpr rfl
  obtain ⟨numbered, supplied⟩ := planNumbersParameters planned plain fun s member => by
    rw [sized s member]
    decide
  refine ⟨_, planned, supplied, fun s member => ?_⟩
  rw [numbered s member, sized s member]

end Query
end TableGateway
