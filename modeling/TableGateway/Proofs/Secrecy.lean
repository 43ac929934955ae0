import TableGateway.Proofs.Parameters
import TableGateway.Run

/-! Values never reach the text of a statement or the log. Two queries that differ in bound values only are
planned to the same texts, and as long as they get the same answers their runs cannot be told apart. -/
namespace TableGateway

inductive Value.Class : Value → Value → Prop
  | same (v : Value) : Class v v
  | other {v w : Value} (first : Filter.isLiteral v = false) (second : Filter.isLiteral w = false) :
      Class v w

inductive Operand.Alike (operator : Operator) : Operand → Operand → Prop
  | single {v w : Value} (tested : operator = .is → v.Class w) : Alike operator (.single v) (.single w)
  | list {vs ws : List Value} (size : vs.length = ws.length) : Alike operator (.list vs) (.list ws)

structure Filter.Alike (f g : Filter) : Prop where
  column : f.column = g.column
  operator : f.operator = g.operator
  negated : f.negated = g.negated
  operand : f.operand.Alike f.operator g.operand

structure Query.Alike (q r : Query) : Prop where
  table : q.table = r.table
  columns : q.columns = r.columns
  filters : List.Forall₂ Filter.Alike q.filters r.filters
  fragments : q.fragments = r.fragments
  order : q.order = r.order
  limit : q.limit = r.limit
  offset : q.offset = r.offset
  insert : q.insert.map (List.map Record.keys) = r.insert.map (List.map Record.keys)
  update : q.update.map Record.keys = r.update.map Record.keys
  delete : q.delete = r.delete
  returning : q.returning = r.returning
  single : q.single = r.single
  misuse : q.misuse = r.misuse

structure WhereClause.Alike (c d : WhereClause) : Prop where
  sql : c.sql = d.sql
  params : c.params.length = d.params.length

structure Statement.Alike (a b : Statement) : Prop where
  sql : a.sql = b.sql
  params : a.params.length = b.params.length

inductive Agree {ε α : Type} (related : α → α → Prop) : Except ε α → Except ε α → Prop
  | failed (fault : ε) : Agree related (.error fault) (.error fault)
  | built {a b : α} (results : related a b) : Agree related (.ok a) (.ok b)

namespace Agree

variable {ε α β : Type} {related : α → α → Prop} {shown : β → β → Prop} {x y : Except ε α}

theorem bind (agree : Agree related x y) {f g : α → Except ε β}
    (carried : ∀ a b, related a b → Agree shown (f a) (g b)) :
    Agree shown (x.bind f) (y.bind g) := by
  cases agree with
  | failed fault => exact .failed fault
  | built results => exact carried _ _ results

theorem map (agree : Agree related x y) (f g : α → β) (carried : ∀ a b, related a b → shown (f a) (g b)) :
    Agree shown (x.map f) (y.map g) := by
  cases agree with
  | failed fault => exact .failed fault
  | built results => exact .built (carried _ _ results)

theorem diagonal (related : ∀ a, shown a a) (z : Except ε β) : Agree shown z z := by
  cases z with
  | error fault => exact .failed fault
  | ok a => exact .built (related a)

theorem mapError {δ : Type} (agree : Agree related x y) (f : ε → δ) : Agree related (x.mapError f) (y.mapError f) := by
  cases agree with
  | failed fault => exact .failed (f fault)
  | built results => exact .built results

end Agree

structure Plan.Alike (p s : Plan) : Prop where
  action : p.action = s.action
  table : p.table = s.table
  statements : List.Forall₂ Statement.Alike p.statements s.statements
  returnsRows : p.returnsRows = s.returnsRows
  single : p.single = s.single

namespace Filter

theorem templateAlike {f g : Filter} (alike : f.Alike g) : f.template = g.template := by
  obtain ⟨column, operator, negated, operand⟩ := f
  obtain ⟨column', operator', negated', operand'⟩ := g
  obtain ⟨rfl, rfl, rfl, same⟩ := alike
  cases same with
  | list size =>
    rename_i vs ws
    cases vs with
    | nil => rw [List.eq_nil_of_length_eq_zero size.symm]
    | cons v vs =>
      obtain ⟨w, others, rfl⟩ := List.exists_cons_of_length_eq_add_one size.symm
      have tails : vs.length = others.length := by simpa using size
      simp only [template, tails]
  | single tested =>
    rename_i v w
    by_cases test : operator = .is
    · subst test
      cases tested rfl with
      | same => rfl
      | other first second => rw [templateDistinct first, templateDistinct second]
    · cases operator <;> first | contradiction | rfl

theorem renderAlike {f g : Filter} (alike : f.Alike g) (start : Nat) : f.render start = g.render start := by
  rw [renderTemplate, renderTemplate, templateAlike alike]

theorem boundAlike {f g : Filter} (alike : f.Alike g) : f.bound.length = g.bound.length := by
  rw [← holesTemplate, ← holesTemplate, templateAlike alike]

end Filter

namespace WhereClause

variable {filters others : List Filter}

theorem renderFiltersAlike (alike : List.Forall₂ Filter.Alike filters others) (start : Nat) :
    renderFilters start filters = renderFilters start others := by
  induction alike generalizing start with
  | nil => rfl
  | cons first rest ih =>
    simp only [renderFilters, Filter.renderAlike first, Filter.boundAlike first, ih]

theorem paramsAlike (alike : List.Forall₂ Filter.Alike filters others) :
    (filters.flatMap Filter.bound).length = (others.flatMap Filter.bound).length := by
  induction alike with
  | nil => rfl
  | cons first rest ih =>
    simp only [List.flatMap_cons, List.length_append, Filter.boundAlike first, ih]

theorem sqlAlike (alike : List.Forall₂ Filter.Alike filters others) (fragments : List Text) (start : Nat) :
    (of filters fragments start).sql = (of others fragments start).sql := by
  simp only [of, renderFiltersAlike alike]

end WhereClause

namespace Query
open Placeholder (shift)

variable {q r : Query}

theorem clauseAlike (alike : q.Alike r) : q.clause.Alike r.clause where
  sql := by simp only [clause, alike.fragments, WhereClause.sqlAlike alike.filters]
  params := WhereClause.paramsAlike alike.filters

theorem conditionAlike (alike : q.Alike r) : Agree WhereClause.Alike q.condition r.condition := by
  have clauses := clauseAlike alike
  unfold condition
  rw [WhereClause.compileNumbered, WhereClause.compileNumbered, WhereClause.paramsAlike alike.filters]
  cases Word.add? 1 (r.filters.flatMap Filter.bound).length with
  | none => exact .failed _
  | some next => exact .built clauses

theorem appendedAlike {c d : WhereClause} (alike : c.Alike d) : appended c = appended d := by
  unfold appended WhereClause.isEmpty
  rw [alike.sql]

theorem returningAlike (alike : q.Alike r) : q.returningClause = r.returningClause := by
  simp only [returningClause, alike.returning, alike.columns]

theorem actionAlike (alike : q.Alike r) : q.action = r.action := by
  have insert := congrArg Option.isSome alike.insert
  have update := congrArg Option.isSome alike.update
  simp only [Option.isSome_map] at insert update
  simp only [action, insert, update, alike.delete]

theorem tailAlike (alike : q.Alike r) :
    q.orderClause = r.orderClause ∧ q.limitClause = r.limitClause ∧ q.offsetClause = r.offsetClause := by
  unfold orderClause limitClause offsetClause
  rw [alike.order, alike.single, alike.limit, alike.offset]
  exact ⟨rfl, rfl, rfl⟩

theorem selectAlike (alike : q.Alike r) {c d : WhereClause} (clauses : c.Alike d) :
    (q.selectStatement c).Alike (r.selectStatement d) where
  sql := by
    obtain ⟨order, limit, offset⟩ := tailAlike alike
    unfold selectStatement
    rw [alike.columns, alike.table, appendedAlike clauses, order, limit, offset]
  params := clauses.params

theorem deleteAlike (alike : q.Alike r) {c d : WhereClause} (clauses : c.Alike d) :
    (q.deleteStatement c).Alike (r.deleteStatement d) where
  sql := by
    unfold deleteStatement
    rw [alike.table, appendedAlike clauses, returningAlike alike]
  params := clauses.params

theorem headKeys (q : Query) (fields : Record) : updateHead q fields =
    "UPDATE ".toList ++ q.table ++ " SET ".toList ++ Text.listed ((Record.keys fields).zipIdx.map fun x =>
      x.1 ++ " = ".toList ++ Filter.placeholder (x.2 + 1)) := by
  rw [Record.keys, List.zipIdx_map, List.map_map]
  rfl

theorem headAlike (alike : q.Alike r) {fields others : Record}
    (keys : Record.keys fields = Record.keys others) : updateHead q fields = updateHead r others := by
  rw [headKeys, headKeys, keys, alike.table]

theorem updateAlike (alike : q.Alike r) {fields others : Record}
    (keys : Record.keys fields = Record.keys others) :
    Agree Statement.Alike (updateStatement q fields) (updateStatement r others) := by
  have size : fields.length = others.length := by simpa [Record.keys] using congrArg List.length keys
  by_cases named : fields = []
  · have other : others = [] := List.eq_nil_of_length_eq_zero (by rw [← size, named]; rfl)
    subst named other
    simp only [updateStatement, alike.table]
    exact .failed _
  · have other : others ≠ [] := fun none => named (List.eq_nil_of_length_eq_zero (by rw [size, none]; rfl))
    obtain ⟨sql, params⟩ := clauseAlike alike
    rw [updateBuilt named, updateBuilt other]
    refine (conditionAlike alike).bind fun _ _ _ => ?_
    rw [sql, size]
    cases shift others.length r.clause.sql with
    | none => exact .failed _
    | some shifted =>
      refine .built ⟨?_, ?_⟩
      · unfold updated WhereClause.isEmpty
        rw [headAlike alike keys, returningAlike alike, sql]
      · simp only [updated, List.length_append, List.length_map, size, params]

theorem unevenKeys (names : List Text) (rows : List Record) :
    (uneven? names rows).map (Prod.map Record.keys id) =
      ((rows.map Record.keys).zipIdx.drop 1).find? fun (keys, _) =>
        !(keys.length = names.length && names.all fun name => decide (name ∈ keys)) := by
  rw [List.zipIdx_map, ← List.map_drop, List.find?_map, uneven?]
  simp only [sameNamesKeys]
  rfl

theorem insertTextAlike (alike : q.Alike r) (names : List Text) : insertText q names = insertText r names := by
  unfold insertText
  rw [alike.table, returningAlike alike]

theorem insertAlike (alike : q.Alike r) {rows others : List Record}
    (keys : rows.map Record.keys = others.map Record.keys) :
    Agree (List.Forall₂ Statement.Alike) (insertStatements q rows) (insertStatements r others) := by
  have size : rows.length = others.length := by simpa using congrArg List.length keys
  cases rows with
  | nil =>
    rw [List.eq_nil_of_length_eq_zero size.symm]
    exact .built .nil
  | cons first rest =>
    obtain ⟨first', rest', rfl⟩ := List.exists_cons_of_length_eq_add_one size.symm
    have names : Record.keys first = Record.keys first' := by simpa using congrArg List.head? keys
    have same := unevenKeys (Record.keys first) (first :: rest)
    rw [keys, ← unevenKeys] at same
    simp only [insertStatements, ← names]
    cases even : uneven? (Record.keys first) (first :: rest) with
    | none =>
      have others : uneven? (Record.keys first) (first' :: rest') = none := by
        simpa [even] using same.symm
      rw [others]
      refine .built (List.forall₂_map_left_iff.mpr (List.forall₂_map_right_iff.mpr ?_))
      refine List.forall₂_of_length_eq_of_get size fun i here there => ⟨?_, ?_⟩
      · exact insertTextAlike alike _
      · simp only [rowValues, List.length_map]
    | some found =>
      obtain ⟨row, index⟩ := found
      rw [even] at same
      obtain ⟨⟨row', index'⟩, there, mapped⟩ := Option.map_eq_some_iff.mp same.symm
      obtain ⟨rowKeys, rfl⟩ := Prod.mk.inj mapped
      simp only [there, id, alike.table, ← rowKeys]
      exact .failed _

theorem statementsAlike (alike : q.Alike r) :
    Agree (List.Forall₂ Statement.Alike) q.statements r.statements := by
  have insert := alike.insert
  have update := alike.update
  unfold statements
  cases left : q.insert with
  | some rows =>
    rw [left] at insert
    obtain ⟨others, right, keys⟩ := Option.map_eq_some_iff.mp insert.symm
    rw [right]
    exact (insertAlike alike keys.symm).mapError _
  | none =>
    rw [left] at insert
    rw [Option.map_eq_none_iff.mp insert.symm]
    cases change : q.update with
    | some fields =>
      rw [change] at update
      obtain ⟨others, right, keys⟩ := Option.map_eq_some_iff.mp update.symm
      rw [right]
      exact (updateAlike alike keys.symm).map _ _ fun _ _ results => .cons results .nil
    | none =>
      rw [change] at update
      rw [Option.map_eq_none_iff.mp update.symm, ← alike.delete]
      cases q.delete with
      | true => exact (conditionAlike alike).map _ _ fun _ _ clauses => .cons (deleteAlike alike clauses) .nil
      | false => exact (conditionAlike alike).map _ _ fun _ _ clauses => .cons (selectAlike alike clauses) .nil

theorem planAlike (alike : q.Alike r) : Agree Plan.Alike q.plan r.plan := by
  unfold plan
  rw [← alike.misuse]
  cases q.misuse with
  | some fault => exact .failed _
  | none =>
    refine (statementsAlike alike).map _ _ fun statements others results => ?_
    exact ⟨actionAlike alike, alike.table, results, by rw [actionAlike alike, alike.returning], alike.single⟩

end Query

structure Observation where
  issued : List Statement := []
  answers : List (Except Fault Output) := []
  events : List Event := []

structure Observation.Alike (x y : Observation) : Prop where
  issued : List.Forall₂ Statement.Alike x.issued y.issued
  answers : x.answers = y.answers
  events : x.events = y.events

def SameAnswers (x y : Observation) : Prop :=
  ∀ (i : Nat) (f g : Except Fault Output), x.answers[i]? = some f → y.answers[i]? = some g → f = g

def Observation.after (x : Observation) (p : Plan) (statement : Statement) (answer : Except Fault Output) :
    Observation where
  issued := x.issued ++ [statement]
  answers := x.answers ++ [answer]
  events := x.events ++ [.statement p.action p.table statement.params.length statement.sql]

namespace Client

variable {σ τ : Type}

def observed (c : Client σ) : Client (σ × Observation) where
  emit event s := (c.emit event s.1, { s.2 with events := s.2.events ++ [event] })
  query statement s :=
    let (answer, next) := c.query statement s.1
    (answer, next, { s.2 with
      issued := s.2.issued ++ [statement]
      answers := s.2.answers ++ [answer] })

theorem runObserved (c : Client σ) (p : Plan) (statement : Statement) (rest : List Statement) (output : Output)
    (a : σ) (x : Observation) : Plan.runFrom c.observed p output (statement :: rest) (a, x) =
      match c.query statement (c.emit (.statement p.action p.table statement.params.length statement.sql) a) with
      | (.error fault, next) => (.error (.fault fault), next, x.after p statement (.error fault))
      | (.ok part, next) =>
        match output.append part with
        | some output => Plan.runFrom c.observed p output rest (next, x.after p statement (.ok part))
        | none => (.error .overflow, next, x.after p statement (.ok part)) := by
  rw [Plan.runFrom]
  have asked : c.observed.query statement
      (c.observed.emit (.statement p.action p.table statement.params.length statement.sql) (a, x)) =
        let answered := c.query statement
          (c.emit (.statement p.action p.table statement.params.length statement.sql) a)
        (answered.1, answered.2, x.after p statement answered.1) := rfl
  rw [asked]
  obtain ⟨fault | part, next⟩ := c.query statement _
  · rfl
  · rfl

theorem runAnswers (c : Client σ) (p : Plan) (statements : List Statement) (output : Output) (a : σ)
    (x : Observation) : x.answers <+: (Plan.runFrom c.observed p output statements (a, x)).2.2.answers := by
  induction statements generalizing output a x with
  | nil => exact List.prefix_refl _
  | cons statement rest ih =>
    rw [runObserved]
    obtain ⟨fault | part, next⟩ := c.query statement _
    · exact List.prefix_append _ _
    · dsimp only
      cases output.append part with
      | none => exact List.prefix_append _ _
      | some output => exact (List.prefix_append _ _).trans (ih _ next (x.after p statement (.ok part)))

theorem runAnswered (c : Client σ) (p : Plan) (statement : Statement) (rest : List Statement) (output : Output)
    (a : σ) (x : Observation) :
    (Plan.runFrom c.observed p output (statement :: rest) (a, x)).2.2.answers[x.answers.length]? =
      some (c.query statement
        (c.emit (.statement p.action p.table statement.params.length statement.sql) a)).1 := by
  have added : ∀ answer, (x.after p statement answer).answers[x.answers.length]? = some answer :=
    fun _ => List.getElem?_concat_length
  rw [runObserved]
  obtain ⟨fault | part, next⟩ := c.query statement _
  · exact added _
  · dsimp only
    cases output.append part with
    | none => exact added _
    | some output =>
      obtain ⟨more, whole⟩ := runAnswers c p rest output next (x.after p statement (.ok part))
      obtain ⟨within, found⟩ := List.getElem?_eq_some_iff.mp (added (.ok part))
      dsimp only
      rw [← whole, List.getElem?_append_left within]
      exact added _

theorem afterAlike {p s : Plan} (action : p.action = s.action) (table : p.table = s.table)
    {statement other : Statement} (head : statement.Alike other) {x y : Observation} (seen : x.Alike y)
    (answer : Except Fault Output) : (x.after p statement answer).Alike (y.after s other answer) where
  issued := List.rel_append seen.issued (.cons head .nil)
  answers := by simp only [Observation.after, seen.answers]
  events := by simp only [Observation.after, seen.events, action, table, head.sql, head.params]

theorem runAlike (c : Client σ) (d : Client τ) {p s : Plan} (action : p.action = s.action)
    (table : p.table = s.table) {statements others : List Statement}
    (alike : List.Forall₂ Statement.Alike statements others) (output : Output) (a : σ) (b : τ)
    {x y : Observation} (seen : x.Alike y)
    (same : SameAnswers (Plan.runFrom c.observed p output statements (a, x)).2.2
      (Plan.runFrom d.observed s output others (b, y)).2.2) :
    (Plan.runFrom c.observed p output statements (a, x)).1 =
        (Plan.runFrom d.observed s output others (b, y)).1 ∧
      (Plan.runFrom c.observed p output statements (a, x)).2.2.Alike
        (Plan.runFrom d.observed s output others (b, y)).2.2 := by
  induction alike generalizing output a b x y with
  | nil => exact ⟨rfl, seen⟩
  | cons head rest ih =>
    -- the heads trace one event, and after one and the same answer either both runs stop or both go on
    have answered := same _ _ _ (runAnswered c p _ _ output a x) (seen.answers ▸ runAnswered d s _ _ output b y)
    have after := afterAlike action table head seen
    rw [runObserved, runObserved] at same ⊢
    generalize c.query _ _ = first at *
    generalize d.query _ _ = second at *
    obtain ⟨answer, next⟩ := first
    obtain ⟨answer', next'⟩ := second
    obtain rfl : answer = answer' := answered
    cases answer with
    | error fault => exact ⟨rfl, after _⟩
    | ok part =>
      dsimp only at same ⊢
      cases joined : output.append part with
      | none => exact ⟨rfl, after _⟩
      | some output =>
        rw [joined] at same
        exact ih _ next next' (after _) same

end Client

namespace Query

theorem valuesLeaveNoTrace {q r : Query} (alike : q.Alike r) :
    Agree Plan.Alike q.plan r.plan ∧
      ∀ p s, q.plan = .ok p → r.plan = .ok s → ∀ {σ τ : Type} (c : Client σ) (d : Client τ) (a : σ) (b : τ),
        let x := p.run c.observed (a, {})
        let y := s.run d.observed (b, {})
        SameAnswers x.2.2 y.2.2 → x.1 = y.1 ∧ x.2.2.Alike y.2.2 := by
  refine ⟨planAlike alike, ?_⟩
  intro p s planned planned' σ τ c d a b x y same
  have plans := planAlike alike
  rw [planned, planned'] at plans
  cases plans with
  | built plans =>
    exact c.runAlike d plans.action plans.table plans.statements {} a b ⟨.nil, rfl, rfl⟩ same

theorem tokenLeavesNoTrace :
    let asked (token : Value) : Query :=
      { table := "users".toList, filters := [⟨"token".toList, .eq, false, .single token⟩] }
    let client : Recorder := { answers := [.error (.query (.server "42501".toList))] }
    ∃ p s, (asked (.text "secret".toList)).plan = .ok p ∧ (asked .null).plan = .ok s ∧
      p.statements ≠ s.statements ∧
      (p.run Recorder.client.observed (client, {})).2.2.Alike
        (s.run Recorder.client.observed (client, {})).2.2 := by
  intro asked client
  have tokens : (asked (.text "secret".toList)).Alike (asked .null) :=
    { table := rfl
      columns := rfl
      filters := .cons ⟨rfl, rfl, rfl, .single fun test => nomatch test⟩ .nil
      fragments := rfl
      order := rfl
      limit := rfl
      offset := rfl
      insert := rfl
      update := rfl
      delete := rfl
      returning := rfl
      single := rfl
      misuse := rfl }
  refine ⟨_, _, rfl, rfl, ?_, ?_⟩
  · intro same
    have params : [[Value.text "secret".toList]] = [[Value.null]] := congrArg (List.map Statement.params) same
    contradiction
  · exact ((valuesLeaveNoTrace tokens).2 _ _ rfl rfl Recorder.client Recorder.client client client
      fun _ _ _ found there => Option.some.inj (found.symm.trans there)).2

end Query
end TableGateway
