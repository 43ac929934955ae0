import Mathlib.Data.List.Perm.Subperm
import TableGateway.Proofs.Parameters

/-! Inserted rows. An insert is planned exactly when every row has the names of the first, and the first row that
has others is reported. The columns are the names of the first row, and each row fills them with its own values,
in whatever order it has them. -/
namespace TableGateway
open Placeholder (numbers)

namespace Record

def Named (names : List Text) (row : Record) : Prop := ∀ name, name ∈ keys row ↔ name ∈ names

theorem getMember {row : Record} (distinct : (keys row).Nodup) (name : Text) (value : Json) :
    get? row name = some value ↔ (name, value) ∈ row := by
  induction row with
  | nil => simp [get?]
  | cons field rest ih =>
    obtain ⟨key, held⟩ := field
    obtain ⟨apart, others⟩ := List.nodup_cons.mp distinct
    by_cases own : name = key
    · subst own
      have absent : (name, value) ∉ rest := fun member => apart (List.mem_map.mpr ⟨_, member, rfl⟩)
      simp [get?, absent, eq_comm]
    · have other : (name == key) = false := beq_eq_false_iff_ne.mpr own
      simpa [get?, List.lookup_cons, other, own] using ih others

theorem getReordered {row other : Record} (reordered : row.Perm other) (distinct : (keys row).Nodup)
    (name : Text) : get? row name = get? other name := by
  have still : (keys other).Nodup := (reordered.map Prod.fst).nodup_iff.mp distinct
  refine Option.ext fun value => ?_
  rw [getMember distinct, getMember still, reordered.mem_iff]

end Record

namespace Query
open Record (Named)

variable {q : Query} {rows : List Record} {names : List Text}

theorem sameNamesNamed {row : Record} (distinct : names.Nodup) (own : (Record.keys row).Nodup) :
    sameNames names row ↔ Named names row := by
  rw [sameNamesKeys, Bool.and_eq_true, decide_eq_true_iff, List.all_eq_true]
  constructor
  · rintro ⟨size, found⟩ name
    have inside : names ⊆ Record.keys row := fun name listed => of_decide_eq_true (found name listed)
    have all := (List.subperm_of_subset distinct inside).perm_of_length_le (Nat.le_of_eq size)
    exact all.symm.mem_iff
  · intro named
    have all := (List.perm_ext_iff_of_nodup own distinct).mpr named
    exact ⟨all.length_eq, fun name listed => decide_eq_true ((named name).mpr listed)⟩

theorem unevenFirst (first : Record) (rest : List Record) :
    uneven? (Record.keys first) (first :: rest) =
      ((first :: rest).zipIdx).find? fun (row, _) => !sameNames (Record.keys first) row := by
  have own : sameNames (Record.keys first) first := by
    rw [sameNamesKeys]
    simp
  rw [uneven?, List.zipIdx_cons, List.find?_cons_of_neg (by simpa using own)]
  rfl

theorem unevenNone {first : Record} {rest : List Record}
    (distinct : ∀ row ∈ first :: rest, (Record.keys row).Nodup) :
    uneven? (Record.keys first) (first :: rest) = none ↔
      ∀ row ∈ first :: rest, Named (Record.keys first) row := by
  have even : ∀ row ∈ first :: rest, sameNames (Record.keys first) row ↔ Named (Record.keys first) row :=
    fun row member => sameNamesNamed (distinct first List.mem_cons_self) (distinct row member)
  rw [unevenFirst, List.find?_eq_none]
  constructor
  · intro none row member
    obtain ⟨i, here⟩ := List.getElem?_of_mem member
    have same := none (row, i) (List.mem_zipIdx_iff_getElem?.mpr here)
    exact (even row member).mp (by simpa using same)
  · intro named field member
    have inside := List.mem_of_getElem? (List.mem_zipIdx_iff_getElem?.mp member)
    simpa using (even field.1 inside).mpr (named field.1 inside)

theorem unevenSome {first row : Record} {rest : List Record} {index : Nat}
    (distinct : ∀ row ∈ first :: rest, (Record.keys row).Nodup)
    (found : uneven? (Record.keys first) (first :: rest) = some (row, index)) :
    (first :: rest)[index]? = some row ∧ ¬ Named (Record.keys first) row ∧
      ∀ i < index, ∀ earlier ∈ (first :: rest)[i]?, Named (Record.keys first) earlier := by
  have even : ∀ row ∈ first :: rest, sameNames (Record.keys first) row ↔ Named (Record.keys first) row :=
    fun row member => sameNamesNamed (distinct first List.mem_cons_self) (distinct row member)
  rw [unevenFirst, List.find?_eq_some_iff_getElem] at found
  obtain ⟨differs, i, bound, here, before⟩ := found
  simp only [List.getElem_zipIdx, Nat.zero_add, Prod.mk.injEq] at here
  obtain ⟨here, rfl⟩ := here
  have inside : row ∈ first :: rest := here ▸ List.getElem_mem _
  refine ⟨List.getElem?_eq_some_iff.mpr ⟨_, here⟩, ?_, fun j earlier other same => ?_⟩
  · rw [← even row inside]
    simpa using differs
  · obtain ⟨small, rfl⟩ := List.getElem?_eq_some_iff.mp same
    have same := before j earlier
    simp only [List.getElem_zipIdx, Bool.not_not] at same
    exact (even _ (List.getElem_mem small)).mp same

theorem planInserts (used : q.misuse = none) (insert : q.insert = some rows) :
    q.plan = ((insertStatements q rows).mapError .fault).map fun statements =>
      ⟨.insert, q.table, statements, q.returning, q.single⟩ := by
  have kind : q.action = .insert := by simp [action, insert]
  simp only [plan, used, statements, insert, kind]
  rfl

theorem insertEven (distinct : ∀ row ∈ rows, (Record.keys row).Nodup)
    (named : ∀ row ∈ rows, Named (Record.keys (rows.headD [])) row) :
    insertStatements q rows = .ok (rows.map fun row =>
      ⟨insertText q (Record.keys (rows.headD [])), rowValues (Record.keys (rows.headD [])) row⟩) := by
  cases rows with
  | nil => rfl
  | cons first rest => simp only [insertStatements, List.headD_cons, (unevenNone distinct).mpr named]

theorem insertUneven (distinct : ∀ row ∈ rows, (Record.keys row).Nodup)
    (uneven : ¬ ∀ row ∈ rows, Named (Record.keys (rows.headD [])) row) :
    ∃ i row, rows[i]? = some row ∧ ¬ Named (Record.keys (rows.headD [])) row ∧
      (∀ j < i, ∀ earlier ∈ rows[j]?, Named (Record.keys (rows.headD [])) earlier) ∧
      insertStatements q rows =
        .error (.validation (.unevenRow q.table i (Record.keys row) (Record.keys (rows.headD [])))) := by
  cases rows with
  | nil => exact absurd (List.forall_mem_nil _) uneven
  | cons first rest =>
    cases found : uneven? (Record.keys first) (first :: rest) with
    | none => exact absurd ((unevenNone distinct).mp found) uneven
    | some differing =>
      obtain ⟨row, i⟩ := differing
      obtain ⟨here, other, before⟩ := unevenSome distinct found
      exact ⟨i, row, here, other, before, by simp only [insertStatements, List.headD_cons, found]⟩

theorem rowValuesOwn {row : Record} (found : ∀ name ∈ names, (Record.get? row name).isSome) :
    List.Forall₂ (fun name value => ∃ j, (name, j) ∈ row ∧ value = Value.ofJson j) names
      (rowValues names row) := by
  rw [rowValues, List.forall₂_map_right_iff, List.forall₂_same]
  intro name listed
  obtain ⟨j, held⟩ := Option.isSome_iff_exists.mp (found name listed)
  obtain ⟨before, after, rfl, -⟩ := List.lookup_eq_some_iff.mp held
  exact ⟨j, by simp, by simp [held]⟩

theorem rowValuesReordered {row other : Record} (reordered : row.Perm other)
    (distinct : (Record.keys row).Nodup) (names : List Text) : rowValues names row = rowValues names other := by
  simp only [rowValues, Record.getReordered reordered distinct]

def columnsText (q : Query) (names : List Text) : Text :=
  if names = [] then "INSERT INTO ".toList ++ q.table ++ " DEFAULT VALUES".toList ++ q.returningClause
  else
    "INSERT INTO ".toList ++ q.table ++ " (".toList ++ Text.listed names ++ ") VALUES (".toList ++
      Text.listed ((List.range' 1 names.length).map fun n => '$' :: Text.ofNat n) ++ ')' :: q.returningClause

theorem insertTextColumns (names : List Text) : insertText q names = columnsText q names := by
  cases names with
  | nil => rfl
  | cons name more =>
    have marks : (List.range (name :: more).length).map (fun i => Filter.placeholder (i + 1)) =
        (List.range' 1 (name :: more).length).map fun n => '$' :: Text.ofNat n := by
      rw [List.range'_eq_map_range, List.map_map]
      exact List.map_congr_left fun i _ => by simp [Filter.placeholder, Nat.add_comm]
    simp only [insertText, columnsText, marks, List.isEmpty_cons, reduceCtorEq, if_false, Bool.false_eq_true]
    simp

theorem keptReordered {P : Record → Prop} (kept : ∀ row other : Record, row.Perm other → P row → P other)
    {others : List Record} (reordered : List.Forall₂ List.Perm rows others) (all : ∀ row ∈ rows, P row) :
    ∀ other ∈ others, P other := by
  induction reordered with
  | nil => exact List.forall_mem_nil _
  | cons same _ ih =>
    obtain ⟨first, rest⟩ := List.forall_mem_cons.mp all
    exact List.forall_mem_cons.mpr ⟨kept _ _ same first, ih rest⟩

theorem valuesReordered (names : List Text) {others : List Record}
    (reordered : List.Forall₂ List.Perm rows others) (distinct : ∀ row ∈ rows, (Record.keys row).Nodup) :
    rows.map (rowValues names) = others.map (rowValues names) := by
  induction reordered with
  | nil => rfl
  | cons same _ ih =>
    obtain ⟨first, rest⟩ := List.forall_mem_cons.mp distinct
    rw [List.map_cons, List.map_cons, rowValuesReordered same first, ih rest]

theorem insertReordered (distinct : ∀ row ∈ rows, (Record.keys row).Nodup)
    (named : ∀ row ∈ rows, Named (Record.keys (rows.headD [])) row) {others : List Record}
    (first : others.head? = rows.head?) (reordered : List.Forall₂ List.Perm rows others) :
    insertStatements q others = insertStatements q rows := by
  have names : others.headD [] = rows.headD [] := by simp only [List.headD_eq_head?_getD, first]
  have still := keptReordered (fun _ _ same => (same.map Prod.fst).nodup_iff.mp) reordered distinct
  have renamed : ∀ other ∈ others, Named (Record.keys (others.headD [])) other := names ▸
    keptReordered (fun _ _ same own name => (same.map Prod.fst).mem_iff.symm.trans (own name)) reordered named
  have values := valuesReordered (Record.keys (rows.headD [])) reordered distinct
  rw [insertEven distinct named, insertEven still renamed, names]
  simpa only [List.map_map, Function.comp_def] using congrArg
    (fun values => Except.ok (values.map (Statement.mk (insertText q (Record.keys (rows.headD [])))))) values.symm

theorem planReordered (used : q.misuse = none) (insert : q.insert = some rows)
    (distinct : ∀ row ∈ rows, (Record.keys row).Nodup)
    (named : ∀ row ∈ rows, Named (Record.keys (rows.headD [])) row) {others : List Record}
    (first : others.head? = rows.head?) (reordered : List.Forall₂ List.Perm rows others) :
    { q with insert := some others }.plan = q.plan := by
  have same : insertStatements { q with insert := some others } others = insertStatements q others := by
    cases others with
    | nil => rfl
    | cons row more => rfl
  rw [planInserts used insert, planInserts (q := { q with insert := some others }) used rfl, same,
    insertReordered distinct named first reordered]

theorem insertsLikeFirstRow {q : Query} {rows : List Record} (used : q.misuse = none)
    (insert : q.insert = some rows) (distinct : ∀ row ∈ rows, (Record.keys row).Nodup) :
    let names := Record.keys (rows.headD [])
    ((∃ p, q.plan = .ok p) ↔ ∀ row ∈ rows, Named names row) ∧
      (∀ p, q.plan = .ok p →
        List.Forall₂ (fun row (s : Statement) => s.sql = columnsText q names ∧
          List.Forall₂ (fun name value => ∃ j, (name, j) ∈ row ∧ value = Value.ofJson j) names s.params)
          rows p.statements ∧
        (q.Plain → ∀ s ∈ p.statements, (numbers s.sql).length = names.length) ∧
        ∀ others, others.head? = rows.head? → List.Forall₂ List.Perm rows others →
          { q with insert := some others }.plan = .ok p) ∧
      ∀ halt, q.plan = .error halt → ∃ fault i row, halt = .fault fault ∧ rows[i]? = some row ∧ ¬ Named names row ∧
        (∀ j < i, ∀ earlier ∈ rows[j]?, Named names earlier) ∧
        fault = .validation (.unevenRow q.table i (Record.keys row) names) ∧
        fault.message = "Validation error: INSERT into '".toList ++ q.table ++ "': row ".toList ++
          Text.ofNat i ++ " has columns [".toList ++ Text.listed (Record.keys row) ++
          "], expected [".toList ++ Text.listed names ++ "]".toList := by
  intro names
  have planned := planInserts used insert
  by_cases even : ∀ row ∈ rows, Named names row
  · rw [insertEven distinct even] at planned
    refine ⟨iff_of_true ⟨_, planned⟩ even, fun p found => ⟨?_, fun plain s member => ?_, ?_⟩, fun halt failed => ?_⟩
    · rw [planned] at found
      cases found
      rw [List.forall₂_map_right_iff, List.forall₂_same]
      exact fun row member => ⟨insertTextColumns names,
        rowValuesOwn fun name listed => keysFound ((even row member name).mpr listed)⟩
    · rw [planned] at found
      cases found
      obtain ⟨row, inside, rfl⟩ := List.mem_map.mp member
      obtain ⟨first, rest, rfl⟩ := List.exists_cons_of_ne_nil (List.ne_nil_of_mem inside)
      have numbered := numbersInsert plain (plain.insert _ insert first List.mem_cons_self)
      simpa [names] using congrArg List.length numbered
    · exact fun others first reordered =>
        (planReordered used insert distinct even first reordered).trans found
    · rw [planned] at failed
      cases failed
  · obtain ⟨i, row, here, other, before, stopped⟩ := insertUneven (q := q) distinct even
    rw [stopped] at planned
    have unplanned : ¬ ∃ p, q.plan = .ok p := by simp [planned, Except.map, Except.mapError]
    refine ⟨iff_of_false unplanned even, fun p found => absurd ⟨p, found⟩ unplanned, fun halt failed => ?_⟩
    rw [planned] at failed
    cases failed
    exact ⟨_, i, row, rfl, here, other, before, rfl, rfl⟩

theorem reorderedRowInserted :
    let first : Record := [("title".toList, .string "crash".toList), ("severity".toList, .bool true)]
    let second : Record := [("severity".toList, .null), ("title".toList, .string "typo".toList)]
    let q : Query := { table := "bugs".toList, insert := some [first, second], returning := true }
    ∃ p, q.plan = .ok p ∧ p.statements.map Statement.params =
        [[.text "crash".toList, .bool true], [.text "typo".toList, .null]] ∧
      (∀ s ∈ p.statements,
        s.sql = "INSERT INTO bugs (title, severity) VALUES ($1, $2) RETURNING *".toList ∧
          (numbers s.sql).length = 2) ∧
      { q with insert := some [first, second.reverse] }.plan = .ok p := by
  intro first second q
  have distinct : ∀ row ∈ [first, second], (Record.keys row).Nodup := by decide
  have even : ∀ row ∈ [first, second], Named (Record.keys first) row :=
    List.forall_mem_cons.mpr ⟨fun _ => Iff.rfl, List.forall_mem_singleton.mpr fun name => by
      simp [first, second, Record.keys, or_comm]⟩
  have plain : q.Plain :=
    { table := by decide
      columns := by simp [q]
      order := by simp [q]
      filters := by simp [q]
      insert := by decide
      update := by simp [q]
      fragments := by simp [q] }
  obtain ⟨planned, built, -⟩ := insertsLikeFirstRow (q := q) rfl rfl distinct
  obtain ⟨p, found⟩ := planned.mpr even
  obtain ⟨rows, counted, reordered⟩ := built p found
  have other : List.Forall₂ List.Perm [first, second] [first, second.reverse] :=
    .cons (.refl _) (.cons (List.reverse_perm _).symm .nil)
  refine ⟨p, found, ?_, fun s member => ⟨?_, counted plain s member⟩, reordered _ rfl other⟩
  · cases found
    rfl
  · cases found
    revert s
    decide

end Query
end TableGateway
