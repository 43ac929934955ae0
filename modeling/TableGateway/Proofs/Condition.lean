import TableGateway.Proofs.FilterTemplate
import TableGateway.Query

/-! Conditions as templates. Shifting the placeholders of a condition comes to the same as numbering its
filters from further on, and the free fragments, which are written last, have no part in that. -/
namespace TableGateway
open Placeholder (Quiet put shiftFrom shift scan shiftFitting)

namespace WhereClause

def filtersTemplate (first : Filter) : List Filter → Template
  | [] => first.template
  | f :: rest => first.template.join .space (.next (.word "AND") .space (filtersTemplate f rest))

def template (first : Filter) (rest : List Filter) : Template :=
  .spaced ["WHERE"] (filtersTemplate first rest)

def fragmentTail (fragments : List Text) : Text :=
  (fragmentTerms fragments).flatMap (" AND ".toList ++ ·)

theorem fillFilters (first : Filter) (rest : List Filter) (start : Nat) :
    (filtersTemplate first rest).fill start =
      (" AND ".toList).intercalate (renderFilters start (first :: rest)) := by
  induction rest generalizing first start with
  | nil => simp [filtersTemplate, renderFilters, Filter.renderTemplate]
  | cons f rest ih =>
    have later := ih f (start + first.bound.length)
    simp only [renderFilters] at later
    simp only [filtersTemplate, Template.fillJoin, Template.fill, Atom.fill, Atom.holes, renderFilters,
      List.intercalate_cons_cons, Filter.renderTemplate first, Filter.holesTemplate, later, Nat.add_zero]
    simp [Separator.char]

theorem holesFilters (first : Filter) (rest : List Filter) :
    (filtersTemplate first rest).holes = ((first :: rest).flatMap Filter.bound).length := by
  induction rest generalizing first with
  | nil => simp [filtersTemplate, Filter.holesTemplate]
  | cons f rest ih =>
    simp only [filtersTemplate, Template.holesJoin, Template.holes, Atom.holes, Filter.holesTemplate, ih]
    simp

theorem everyFilterWord {P : Text → Prop} {first : Filter} {rest : List Filter}
    (columns : ∀ f ∈ first :: rest, P f.column) (known : ∀ w ∈ Filter.keywords, P w) :
    ∀ w ∈ (filtersTemplate first rest).words, P w := by
  induction rest generalizing first with
  | nil => exact Filter.everyWord (columns first List.mem_cons_self) known
  | cons f rest ih =>
    have head := Filter.everyWord (columns first List.mem_cons_self) known
    have tail := ih fun g member => columns g (List.mem_cons_of_mem _ member)
    have between : P "AND".toList := known _ (by decide)
    rw [filtersTemplate, Template.wordsJoin]
    exact List.forall_mem_append.mpr ⟨head, List.forall_mem_cons.mpr ⟨between, tail⟩⟩

theorem everyWord {P : Text → Prop} {first : Filter} {rest : List Filter}
    (columns : ∀ f ∈ first :: rest, P f.column) (known : ∀ w ∈ Filter.keywords, P w) :
    ∀ w ∈ (template first rest).words, P w :=
  Template.everySpaced (List.forall_mem_singleton.mpr (known _ (by decide)))
    (everyFilterWord columns known)

theorem compileNumbered (filters : List Filter) (fragments : List Text) (start : Nat) :
    compile filters fragments start =
      (Word.add? start (filters.flatMap Filter.bound).length).map fun _ => of filters fragments start := rfl

theorem compiledIff {filters : List Filter} {fragments : List Text} {start : Nat} {c : WhereClause} :
    compile filters fragments start = some c ↔
      start + (filters.flatMap Filter.bound).length < 2 ^ 64 ∧ of filters fragments start = c := by
  rw [compileNumbered, Option.map_eq_some_iff]
  refine ⟨fun ⟨sum, next, same⟩ => ⟨(Word.sumIff.mp next).2, same⟩, fun ⟨fits, same⟩ =>
    ⟨_, Word.sumFits fits, same⟩⟩

theorem compiledFits {filters : List Filter} {start : Nat}
    (fits : start + (filters.flatMap Filter.bound).length < 2 ^ 64) (fragments : List Text) :
    compile filters fragments start = some (of filters fragments start) :=
  compiledIff.mpr ⟨fits, rfl⟩

theorem fillTemplate (first : Filter) (rest : List Filter) (start : Nat) :
    (template first rest).fill start = (of (first :: rest) [] start).sql := by
  rw [template, Template.fillSpaced, Template.fillUnspaced, fillFilters]
  simp [of, conjunction, renderFilters, fragmentTerms]

theorem holesTemplate (first : Filter) (rest : List Filter) :
    (template first rest).holes = ((first :: rest).flatMap Filter.bound).length := by
  rw [template, Template.holesSpaced, holesFilters]

theorem quietTemplate {first : Filter} {rest : List Filter} (quiet : ∀ f ∈ first :: rest, Quiet f.column) :
    ∀ w ∈ (template first rest).words, Quiet w :=
  everyWord quiet (by decide)

theorem emptyConjunction (terms : List Text) : (conjunction terms).isEmpty = terms.isEmpty := by
  cases terms <;> simp [conjunction]

theorem emptySql (filters : List Filter) (fragments : List Text) (start : Nat) :
    (of filters fragments start).isEmpty = (filters.isEmpty && (fragmentTerms fragments).isEmpty) := by
  have whole : (of filters fragments start).isEmpty =
      (renderFilters start filters ++ fragmentTerms fragments).isEmpty := emptyConjunction _
  rw [whole]
  cases filters <;> rfl

theorem sqlSplit (first : Filter) (rest : List Filter) (fragments : List Text) (start : Nat) :
    (of (first :: rest) fragments start).sql =
      (of (first :: rest) [] start).sql ++ fragmentTail fragments := by
  have none : fragmentTerms [] = [] := rfl
  simp only [of, conjunction, renderFilters, List.cons_append, intercalateFlat, none,
    List.append_nil, List.isEmpty_cons, fragmentTail, List.flatMap_append]
  simp

theorem partedTail (fragments : List Text) : Parted (fragmentTail fragments) := by
  unfold fragmentTail
  cases fragmentTerms fragments with
  | nil => exact Parted.nil
  | cons t terms => exact Parted.cons .space _

theorem shiftCondition {first : Filter} {rest : List Filter}
    (quiet : ∀ f ∈ first :: rest, Quiet f.column) {start offset : Nat} (nonzero : offset ≠ 0)
    (fits : start + ((first :: rest).flatMap Filter.bound).length + offset ≤ 2 ^ 64)
    (fragments : List Text) :
    shift offset (of (first :: rest) fragments start).sql =
      put (of (first :: rest) [] (start + offset)).sql (shift offset (fragmentTail fragments)) := by
  have enough : start + (template first rest).holes + offset ≤ 2 ^ 64 := by rwa [holesTemplate]
  rw [Placeholder.shiftAsFrom nonzero, Placeholder.shiftAsFrom nonzero, sqlSplit, ← fillTemplate,
    ← fillTemplate, Template.shiftFill (quietTemplate quiet) enough (partedTail fragments)]

theorem shiftFragments {offset : Nat} (nonzero : offset ≠ 0) (fragments : List Text) (start : Nat) :
    shift offset (of [] fragments start).sql =
      if (fragmentTerms fragments).isEmpty then some [] else
        put "WHERE ".toList (shift offset ((" AND ".toList).intercalate (fragmentTerms fragments))) := by
  have alone : (of [] fragments start).sql = conjunction (fragmentTerms fragments) := rfl
  rw [Placeholder.shiftAsFrom nonzero, Placeholder.shiftAsFrom nonzero, alone, conjunction]
  by_cases blank : (fragmentTerms fragments).isEmpty
  · rw [if_pos blank, if_pos blank, Placeholder.shiftFromNil]
  · have quiet : Quiet "WHERE".toList := by decide
    have space : ' ' ≠ '\'' ∧ ' ' ≠ '$' := by decide
    rw [if_neg blank, if_neg blank]
    exact Placeholder.shiftFromQuiet quiet space.1 space.2 offset false _

end WhereClause

namespace Query

def updateHead (q : Query) (fields : Record) : Text :=
  let set := fields.zipIdx.map fun ((name, _), i) => name ++ " = " ++ Filter.placeholder (i + 1)
  "UPDATE " ++ q.table ++ " SET " ++ Text.listed set

def clause (q : Query) : WhereClause := .of q.filters q.fragments 1

theorem conditionFits {q : Query} (fits : 1 + (q.filters.flatMap Filter.bound).length < 2 ^ 64) :
    q.condition = .ok q.clause :=
  congrArg Halt.checked (WhereClause.compiledFits fits q.fragments)

theorem conditionClause {q : Query} {c : WhereClause} (built : q.condition = .ok c) : c = q.clause :=
  (WhereClause.compiledIff.mp (Halt.checkedOk.mp built)).2.symm

theorem planSelect {q : Query} (used : q.misuse = none) (noInsert : q.insert = none) (noUpdate : q.update = none)
    (kept : q.delete = false) (fits : 1 + (q.filters.flatMap Filter.bound).length < 2 ^ 64) :
    q.plan = .ok ⟨.select, q.table, [q.selectStatement q.clause], true, q.single⟩ := by
  have kind : q.action = .select := by simp [action, noInsert, noUpdate, kept]
  simp only [plan, used, statements, noInsert, noUpdate, kept, conditionFits fits, kind]
  rfl

def updated (q : Query) (fields : Record) (shifted : Text) : Statement where
  sql := updateHead q fields ++ (if q.clause.isEmpty then [] else ' ' :: shifted) ++ q.returningClause
  params := fields.map (fun field => Value.ofJson field.2) ++ q.clause.params

theorem updateBuilt {q : Query} {fields : Record} (named : fields ≠ []) :
    updateStatement q fields = q.condition.bind fun _ =>
      (Halt.checked (shift fields.length q.clause.sql)).map (q.updated fields) := by
  have filled : ¬ fields.isEmpty := by simpa using named
  rw [updateStatement, if_neg filled]
  cases built : q.condition with
  | error halt => rfl
  | ok c =>
    obtain rfl := conditionClause built
    dsimp only [bind, Except.bind]
    cases shift fields.length q.clause.sql with
    | none => rfl
    | some shifted => rfl

theorem updateBuilds {q : Query} {fields : Record} {s : Statement} (built : updateStatement q fields = .ok s) :
    fields ≠ [] ∧ ∃ shifted, shift fields.length q.clause.sql = some shifted ∧ s = q.updated fields shifted := by
  by_cases named : fields = []
  · subst named
    cases built
  · rw [updateBuilt named] at built
    cases condition : q.condition with
    | error halt =>
      rw [condition] at built
      cases built
    | ok c =>
      rw [condition] at built
      obtain ⟨shifted, shifts, same⟩ := Halt.mapOk.mp built
      exact ⟨named, shifted, Halt.checkedOk.mp shifts, same.symm⟩

theorem filteredBuilds {q : Query} {write : WhereClause → Statement} {ss : List Statement}
    (built : q.condition.map (fun c => [write c]) = .ok ss) : ss = [write q.clause] := by
  obtain ⟨c, condition, same⟩ := Halt.mapOk.mp built
  obtain rfl := conditionClause condition
  exact same.symm

theorem planUpdate {q : Query} {fields : Record} (used : q.misuse = none) (noInsert : q.insert = none)
    (payload : q.update = some fields) (named : fields ≠ [])
    (fits : 1 + (q.filters.flatMap Filter.bound).length < 2 ^ 64) :
    q.plan = Halt.checked ((shift fields.length q.clause.sql).map fun shifted =>
      ⟨.update, q.table, [q.updated fields shifted], q.returning, q.single⟩) := by
  have kind : q.action = .update := by simp [action, noInsert, payload]
  simp only [plan, used, statements, noInsert, payload, updateBuilt named, conditionFits fits, kind]
  cases shift fields.length q.clause.sql with
  | none => rfl
  | some shifted => rfl

theorem updateNumbersFiltersBehindPayload {q : Query} {fields : Record} (used : q.misuse = none)
    (noInsert : q.insert = none) (payload : q.update = some fields) (named : fields ≠ [])
    (quiet : ∀ f ∈ q.filters, Quiet f.column)
    (fits : fields.length + (q.filters.flatMap Filter.bound).length < 2 ^ 64) :
    let texts := q.plan.map fun p => p.statements.map Statement.sql
    let written (condition : Text) := [updateHead q fields ++ condition ++ q.returningClause]
    (q.filters ≠ [] → texts = Halt.checked ((put (' ' :: (WhereClause.of q.filters [] (fields.length + 1)).sql)
      (shift fields.length (WhereClause.fragmentTail q.fragments))).map written)) ∧
    (q.filters = [] → texts = Halt.checked ((if (WhereClause.fragmentTerms q.fragments).isEmpty then some []
      else put " WHERE ".toList (shift fields.length
        ((" AND ".toList).intercalate (WhereClause.fragmentTerms q.fragments)))).map written)) ∧
    ((∀ digits, Placeholder.Piece.number digits ∈ scan false q.clause.sql → Text.toNat digits < 2 ^ 64 →
      Text.toNat digits + fields.length < 2 ^ 64) → ∃ text, texts = .ok [text]) := by
  intro texts written
  have nonzero : fields.length ≠ 0 := fun zero => named (List.eq_nil_of_length_eq_zero zero)
  have room : 1 + (q.filters.flatMap Filter.bound).length < 2 ^ 64 := by omega
  have planned : texts = Halt.checked ((shift fields.length q.clause.sql).map fun shifted =>
      [(q.updated fields shifted).sql]) := by
    simp only [texts, planUpdate used noInsert payload named room, Halt.checkedMap, Option.map_map]
    rfl
  refine ⟨fun filtered => ?_, fun unfiltered => ?_, fun room => ?_⟩
  · obtain ⟨first, rest, same⟩ := List.exists_cons_of_ne_nil filtered
    rw [same] at quiet fits
    have start : 1 + ((first :: rest).flatMap Filter.bound).length + fields.length ≤ 2 ^ 64 := by omega
    have shifted := WhereClause.shiftCondition quiet nonzero start q.fragments
    have filled : q.clause.isEmpty = false := by
      rw [clause, same]
      exact WhereClause.emptySql (first :: rest) q.fragments 1
    simp only [planned, updated, filled]
    simp only [clause, same, shifted, Nat.add_comm 1]
    cases shift fields.length (WhereClause.fragmentTail q.fragments) with
    | none => rfl
    | some tail => rfl
  · have shifted := WhereClause.shiftFragments nonzero q.fragments 1
    have filled : q.clause.isEmpty = (WhereClause.fragmentTerms q.fragments).isEmpty := by
      rw [clause, unfiltered]
      exact WhereClause.emptySql [] q.fragments 1
    simp only [planned, updated, filled]
    simp only [clause, unfiltered, shifted]
    split
    · rfl
    · cases shift fields.length ((" AND ".toList).intercalate (WhereClause.fragmentTerms q.fragments)) with
      | none => rfl
      | some terms => rfl
  · obtain ⟨shifted, found⟩ := shiftFitting room
    rw [planned, found]
    exact ⟨_, rfl⟩

theorem unclosedFragmentKeepsNumbers :
    let q : Query :=
      { table := "users".toList
        filters := [⟨"id".toList, .eq, false, .single (.int 7)⟩]
        fragments := ["name = 'x $1".toList]
        update := some [("name".toList, .null)] }
    q.plan.map (fun p => p.statements.map Statement.sql) =
      .ok ["UPDATE users SET name = $1 WHERE id = $2 AND (name = 'x $1)".toList] := by
  intro q
  have quiet : ∀ f ∈ q.filters, Quiet f.column := List.forall_mem_singleton.mpr (by decide)
  have tail : shift 1 (WhereClause.fragmentTail q.fragments) = some " AND (name = 'x $1)".toList := by
    decide +kernel
  have texts := (updateNumbersFiltersBehindPayload (q := q) rfl rfl rfl nofun quiet (by decide)).1 nofun
  change q.plan.map _ = Halt.checked ((put _ (shift 1 (WhereClause.fragmentTail q.fragments))).map _) at texts
  rw [texts, tail]
  rfl

end Query
end TableGateway
