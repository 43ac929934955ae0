import Mathlib.Algebra.Ring.Nat
import TableGateway.Proofs.Condition
import TableGateway.Proofs.Trimming

/-! Conditions of two filter lists in a row. One binder hands out the placeholders of all filters, so the second list
is numbered from where the first ends. How far that is each filter tells by itself: it counts as many placeholders
as it writes and binds. -/
namespace TableGateway

structure Binder where
  params : List Value
  next : Nat
  deriving DecidableEq, Repr

namespace Binder

def bind (v : Value) : StateT Binder Option Text := fun b =>
  (Word.add? b.next 1).map fun next => (Filter.placeholder b.next, ⟨b.params ++ [v], next⟩)

theorem mapMCons {α β : Type} (step : α → StateT Binder Option β) (x : α) (rest : List α) (b : Binder) :
    (x :: rest).mapM step b =
      (step x b).bind fun first => (rest.mapM step first.2).map fun last => (first.1 :: last.1, last.2) := by
  rw [List.mapM_cons]
  simp only [Bind.bind, StateT.bind]
  cases step x b with
  | none => rfl
  | some first =>
    dsimp only [Option.bind]
    cases rest.mapM step first.2 with
    | none => rfl
    | some last => rfl

theorem bindAll (values : List Value) {b : Binder} (fits : b.next < 2 ^ 64) :
    values.mapM bind b = (Word.add? b.next values.length).map fun next =>
      ((List.range' b.next values.length).map Filter.placeholder, ⟨b.params ++ values, next⟩) := by
  induction values generalizing b with
  | nil =>
    change some ([], b) = _
    rw [List.length_nil, Word.sumZero fits]
    simp
  | cons v rest ih =>
    rw [mapMCons, bind]
    by_cases room : b.next + 1 < 2 ^ 64
    · rw [Word.sumFits room, Option.map_some, Option.bind_some, ih room, Word.sumAssoc, List.length_cons,
        Nat.add_comm 1, Option.map_map]
      simp [Function.comp_def, List.range'_succ]
    · have excess : 2 ^ 64 ≤ b.next + (v :: rest).length := by
        rw [List.length_cons]
        omega
      rw [Word.sumOverflows (Nat.le_of_not_lt room), Word.sumOverflows excess]
      rfl

end Binder

namespace Filter

def write (f : Filter) : StateT Binder Option Text :=
  let not : Text := if f.negated then "NOT " else []
  match f.operand, f.operator with
  | .list [], _ => return if f.negated then "1=1" else "1=0"
  | .list values, _ => do
    let marks ← values.mapM Binder.bind
    return f.column ++ ' ' :: not ++ "IN (" ++ Text.listed marks ++ ")"
  | .single .null, .is => return f.column ++ " IS " ++ not ++ "NULL"
  | .single (.bool b), .is => return f.column ++ " IS " ++ not ++ if b then "TRUE" else "FALSE"
  | .single v, .is => do
    let sense : Text := if f.negated then [] else "NOT "
    let mark ← Binder.bind v
    return f.column ++ " IS " ++ sense ++ "DISTINCT FROM " ++ mark
  | .single v, .like => do
    let mark ← Binder.bind v
    return f.column ++ ' ' :: not ++ Operator.sql .like ++ ' ' :: mark
  | .single v, .ilike => do
    let mark ← Binder.bind v
    return f.column ++ ' ' :: not ++ Operator.sql .ilike ++ ' ' :: mark
  | .single v, .contains => do
    let document := match v with
      | .json j => Value.json j
      | other => .json other.toJson
    let mark ← Binder.bind document
    return wrapNot f.negated (f.column ++ ' ' :: Operator.sql .contains ++ ' ' :: mark)
  | .single v, operator => do
    let mark ← Binder.bind v
    return wrapNot f.negated (f.column ++ ' ' :: operator.sql ++ ' ' :: mark)

theorem writeOne {f : Filter} {v : Value} {text : Text → Text}
    (written : f.write = do let mark ← Binder.bind v; return text mark) (bound : f.bound = [v])
    (rendered : ∀ n, f.render n = text (placeholder n)) (b : Binder) :
    f.write b = (Word.add? b.next f.bound.length).map fun next =>
      (f.render b.next, ⟨b.params ++ f.bound, next⟩) := by
  rw [written, bound, rendered]
  simp only [Bind.bind, StateT.bind, Binder.bind, List.length_singleton]
  cases Word.add? b.next 1 with
  | none => rfl
  | some next => rfl

theorem writeRendered (f : Filter) {b : Binder} (fits : b.next < 2 ^ 64) :
    f.write b = (Word.add? b.next f.bound.length).map fun next => (f.render b.next, ⟨b.params ++ f.bound, next⟩) := by
  have unbound : ∀ t : Text, (some (t, b) : Option (Text × Binder)) =
      (Word.add? b.next 0).map fun next => (t, ⟨b.params ++ [], next⟩) := by
    intro t
    rw [Word.sumZero fits, List.append_nil]
    rfl
  obtain ⟨column, operator, negated, operand⟩ := f
  cases operand with
  | list values =>
    cases values with
    | nil => exact unbound _
    | cons v rest =>
      have marks : (List.range' b.next (rest.length + 1)).map placeholder =
          (List.range (rest.length + 1)).map fun i => placeholder (b.next + i) := by
        rw [List.range'_eq_map_range, List.map_map]
        rfl
      have handed := Binder.bindAll (v :: rest) fits
      simp only [List.length_cons, marks] at handed
      simp only [write, bind, StateT.bind, handed]
      rw [bound, List.length_cons]
      cases Word.add? b.next (rest.length + 1) with
      | none => rfl
      | some next => rfl
  | single v =>
    cases operator with
    | is =>
      cases v with
      | null => exact unbound _
      | bool v => exact unbound _
      | _ => exact writeOne rfl rfl (fun _ => rfl) b
    | contains => cases v <;> exact writeOne rfl rfl (fun _ => rfl) b
    | _ => cases v <;> exact writeOne rfl rfl (fun _ => rfl) b

theorem countBound (f : Filter) : f.placeholderCount = f.bound.length := by
  obtain ⟨column, operator, negated, operand⟩ := f
  cases operand with
  | list values => rfl
  | single v =>
    cases operator with
    | is => cases v <;> rfl
    | contains => cases v <;> rfl
    | _ => cases v <;> rfl

theorem countHoles (f : Filter) : f.template.holes = f.placeholderCount := by rw [holesTemplate, countBound]

end Filter

namespace WhereClause

def filterTerms (start : Nat) (filters : List Filter) : List Text :=
  filters.mapIdx fun i f => f.render (start + ((filters.take i).map Filter.placeholderCount).sum)

theorem writeFilters (filters : List Filter) {b : Binder} (fits : b.next < 2 ^ 64) :
    filters.mapM Filter.write b = (Word.add? b.next (filters.flatMap Filter.bound).length).map fun next =>
      (renderFilters b.next filters, ⟨b.params ++ filters.flatMap Filter.bound, next⟩) := by
  induction filters generalizing b with
  | nil =>
    change some ([], b) = _
    rw [List.flatMap_nil, List.length_nil, Word.sumZero fits, List.append_nil]
    rfl
  | cons f rest ih =>
    rw [Binder.mapMCons, Filter.writeRendered f fits, List.flatMap_cons, List.length_append]
    by_cases room : b.next + f.bound.length < 2 ^ 64
    · rw [Word.sumFits room, Option.map_some, Option.bind_some, ih room, Word.sumAssoc, Option.map_map]
      simp [Function.comp_def, renderFilters]
    · have excess : 2 ^ 64 ≤ b.next + (f.bound.length + (rest.flatMap Filter.bound).length) := by omega
      rw [Word.sumOverflows (Nat.le_of_not_lt room), Word.sumOverflows excess]
      rfl

def written (filters : List Filter) (fragments : List Text) (start : Nat) : Option WhereClause :=
  (filters.mapM Filter.write ⟨[], start⟩).map fun last =>
    { sql := conjunction (last.1 ++ fragmentTerms fragments)
      params := last.2.params
      nextIndex := last.2.next }

theorem writtenCompiled (filters : List Filter) (fragments : List Text) {start : Nat} (fits : start < 2 ^ 64) :
    written filters fragments start = compile filters fragments start := by
  rw [written, writeFilters filters (b := ⟨[], start⟩) fits, compileNumbered, Option.map_map]
  refine Option.map_congr fun next sum => ?_
  rw [Function.comp_apply, List.nil_append, ← (Word.sumIff.mp sum).1]
  rfl

theorem renderTerms (start : Nat) (filters : List Filter) :
    renderFilters start filters = filterTerms start filters := by
  induction filters generalizing start with
  | nil => rfl
  | cons f rest ih => simp [renderFilters, ih, filterTerms, Filter.countBound, Nat.add_assoc]

theorem renderAppend (start : Nat) (first second : List Filter) :
    renderFilters start (first ++ second) =
      renderFilters start first ++ renderFilters (start + (first.flatMap Filter.bound).length) second := by
  induction first generalizing start with
  | nil => rfl
  | cons f rest ih => simp [renderFilters, ih, Nat.add_assoc]

theorem paramsCounted (filters : List Filter) :
    (filters.flatMap Filter.bound).length = (filters.map Filter.placeholderCount).sum := by
  induction filters with
  | nil => rfl
  | cons f rest ih => simp [ih, Filter.countBound]

theorem fragmentsSolid (fragments : List Text) :
    fragmentTerms fragments =
      (fragments.filter fun t => !t.all isBlank).map fun t => '(' :: Text.trim t ++ [')'] := by
  have solid : ∀ t : Text, (Text.trim t).isEmpty = t.all isBlank := by
    intro t
    rw [Bool.eq_iff_iff, List.isEmpty_iff, Text.trimEmpty, List.all_eq_true]
  simp only [fragmentTerms, solid]

theorem conditionsChained {first second : List Filter} {start : Nat}
    (fits : start + ((first ++ second).map Filter.placeholderCount).sum < 2 ^ 64)
    (fragments others more : List Text) :
    ∃ whole front back, compile (first ++ second) fragments start = some whole ∧
      compile first others start = some front ∧ compile second more front.nextIndex = some back ∧
      written (first ++ second) fragments start = some whole ∧
      whole.params = front.params ++ back.params ∧ whole.nextIndex = back.nextIndex ∧
      (let terms := filterTerms start first ++ filterTerms front.nextIndex second ++
        (fragments.filter fun t => !t.all isBlank).map fun t => '(' :: Text.trim t ++ [')']
      whole.sql = if terms = [] then [] else "WHERE ".toList ++ (" AND ".toList).intercalate terms) ∧
      whole.nextIndex = start + whole.params.length ∧
      whole.params.length = ((first ++ second).map Filter.placeholderCount).sum ∧
      (whole.isEmpty ↔ first ++ second = [] ∧ ∀ t ∈ fragments, ∀ c ∈ t, isBlank c) ∧
      ∀ (f : Filter) (n : Nat), f.render n = f.template.fill n ∧ f.template.holes = f.placeholderCount := by
  rw [← paramsCounted] at fits
  have split : ((first ++ second).flatMap Filter.bound).length =
      (first.flatMap Filter.bound).length + (second.flatMap Filter.bound).length := by simp
  have next : (of first others start).nextIndex = start + (first.flatMap Filter.bound).length := rfl
  have room : start + (first.flatMap Filter.bound).length < 2 ^ 64 := by omega
  have further : (of first others start).nextIndex + (second.flatMap Filter.bound).length < 2 ^ 64 := by
    rw [next]
    omega
  have front := compiledFits room others
  have back := compiledFits further more
  have whole := compiledFits fits fragments
  have filtered : renderFilters start (first ++ second) =
      filterTerms start first ++ filterTerms (of first others start).nextIndex second := by
    rw [renderAppend, renderTerms, renderTerms]
    rfl
  have empty : (of (first ++ second) fragments start).isEmpty ↔
      first ++ second = [] ∧ ∀ t ∈ fragments, ∀ c ∈ t, isBlank c := by
    rw [emptySql, fragmentsSolid]
    simp
  have small : start < 2 ^ 64 := by omega
  refine ⟨_, _, _, whole, front, back, (writtenCompiled _ _ small).trans whole, List.flatMap_append, ?_, ?_, rfl,
    paramsCounted _, empty, fun f n => ⟨f.renderTemplate n, f.countHoles⟩⟩
  · simp [of, Nat.add_assoc]
  · dsimp only
    simp only [of, filtered, fragmentsSolid, conjunction, List.isEmpty_iff]

theorem markedConditionsChained :
    let first : List Filter := [.among "id".toList [.int 1, .int 2]]
    let second : List Filter := [⟨"tags".toList, .contains, true, .single (.text "a".toList)⟩]
    ∃ whole, compile (first ++ second) [" a OR b ".toList] 18446744073709551612 = some whole ∧
      whole.nextIndex = 18446744073709551615 ∧ whole.sql =
        ("WHERE id IN ($18446744073709551612, $18446744073709551613) AND " ++
          "NOT (tags @> $18446744073709551614) AND (a OR b)").toList := by
  intro first second
  have fits : 18446744073709551612 + ((first ++ second).map Filter.placeholderCount).sum < 2 ^ 64 := by decide
  obtain ⟨whole, front, back, compiled, -, -, -, -, -, -, next, count, -⟩ :=
    conditionsChained fits [" a OR b ".toList] [] []
  refine ⟨whole, compiled, ?_, ?_⟩
  · rw [next, count]
    rfl
  · have text : (compile (first ++ second) [" a OR b ".toList] 18446744073709551612).map WhereClause.sql = some
        ("WHERE id IN ($18446744073709551612, $18446744073709551613) AND " ++
          "NOT (tags @> $18446744073709551614) AND (a OR b)").toList := by decide +kernel
    rw [compiled] at text
    exact Option.some.inj text

theorem lastNumberStops :
    compile [⟨"id".toList, .eq, false, .single (.int 1)⟩] [] 18446744073709551615 = none ∧
      compile [⟨"id".toList, .is, false, .single .null⟩] [] 18446744073709551615 =
        some ⟨"WHERE id IS NULL".toList, [], 18446744073709551615⟩ := by
  exact ⟨by decide +kernel, by decide +kernel⟩

end WhereClause
end TableGateway
