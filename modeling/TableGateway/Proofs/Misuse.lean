import TableGateway.Proofs.Calls
import TableGateway.Proofs.Secrecy
import TableGateway.Session

/-! The first call that cannot be followed decides what becomes of a query, and such a query never reaches the
pool. A query without statements does not borrow a connection either; it is a first query all the same, so it
starts a reaper that waits for one. -/
namespace TableGateway

inductive Call.Fails (table : Text) : Call → Fault → Prop
  | unknown {column operator : Text} {value : Value}
      (other : ∀ entry ∈ Operator.names, ∀ name ∈ entry.2, name.toList ≠ Text.lower (Text.trim operator)) :
      Fails table (.not column operator value) (.validation (.unknownNegated operator))
  | uncontained {column message : Text} :
      Fails table (.contains column (.error message)) (.serialization (.contained column message))
  | uninserted {message : Text} :
      Fails table (.insert (.error message)) (.serialization (.payload message))
  | element {rows : List Record} {item : Json} {after : List Json} (other : ∀ fields, item ≠ .object fields) :
      Fails table (.insert (.ok (.array (rows.map .object ++ item :: after))))
        (.validation (.elementNotRecord table rows.length))
  | scalar {j : Json} (other : ∀ fields, j ≠ .object fields) (another : ∀ items, j ≠ .array items) :
      Fails table (.insert (.ok j)) (.validation (.recordsExpected table))
  | unset {message : Text} : Fails table (.update (.error message)) (.serialization (.payload message))
  | fieldless {j : Json} (other : ∀ fields, j ≠ .object fields) :
      Fails table (.update (.ok j)) (.validation (.fieldsExpected table))

namespace Call

variable {table : Text}

theorem Fails.asMisuse {c : Call} {fault : Fault} (fails : c.Fails table fault) : fault.asMisuse = fault := by
  cases fails with
  | _ => rfl

theorem readUnknown (operator : Text) : (∃ cause, Operator.read operator = .error cause) ↔
    ∀ entry ∈ Operator.names, ∀ name ∈ entry.2, name.toList ≠ Text.lower (Text.trim operator) := by
  unfold Operator.read
  dsimp only
  split
  · rename_i entry found
    have known := List.find?_some found
    obtain ⟨name, listed, same⟩ := List.any_eq_true.mp known
    refine ⟨fun ⟨_, read⟩ => (nomatch read), fun none => ?_⟩
    exact absurd (of_decide_eq_true same) (none entry (List.mem_of_find?_eq_some found) name listed)
  · rename_i none
    refine ⟨fun _ entry member name listed same => ?_, fun _ => ⟨_, rfl⟩⟩
    have kept := List.find?_eq_none.mp none entry member
    exact kept (List.any_eq_true.mpr ⟨name, listed, decide_eq_true same⟩)

theorem elementsSplit (items : List Json) : (∃ rows : List Record, items = rows.map .object) ∨
    ∃ (rows : List Record) (item : Json) (after : List Json),
      items = rows.map .object ++ item :: after ∧ ∀ fields, item ≠ .object fields := by
  induction items with
  | nil => exact .inl ⟨[], rfl⟩
  | cons item items ih =>
    cases item with
    | object fields =>
      rcases ih with ⟨rows, rfl⟩ | ⟨rows, item, after, rfl, other⟩
      · exact .inl ⟨fields :: rows, rfl⟩
      · exact .inr ⟨fields :: rows, item, after, rfl, other⟩
    | _ => exact .inr ⟨[], _, items, rfl, nofun⟩

def recordsFrom (table : Text) (start : Nat) (items : List Json) : Except Fault (List Record) :=
  (items.zipIdx start).mapM fun (item, index) =>
    match item with
    | .object fields => .ok fields
    | _ => .error (.validation (.elementNotRecord table index))

theorem recordsObject (start : Nat) (fields : Record) (items : List Json) :
    recordsFrom table start (.object fields :: items) =
      (recordsFrom table (start + 1) items).map (fields :: ·) := by
  unfold recordsFrom
  rw [List.zipIdx_cons, List.mapM_cons]
  rfl

theorem recordsAll (rows : List Record) (start : Nat) :
    recordsFrom table start (rows.map .object) = .ok rows := by
  induction rows generalizing start with
  | nil => rfl
  | cons fields rows ih =>
    rw [List.map_cons, recordsObject, ih]
    rfl

theorem recordsStopped (rows : List Record) {item : Json} (after : List Json)
    (other : ∀ fields, item ≠ .object fields) (start : Nat) :
    recordsFrom table start (rows.map .object ++ item :: after) =
      .error (.validation (.elementNotRecord table (start + rows.length))) := by
  induction rows generalizing start with
  | nil =>
    unfold recordsFrom
    rw [List.map_nil, List.nil_append, List.zipIdx_cons, List.mapM_cons]
    cases item with
    | object fields => exact absurd rfl (other fields)
    | _ => rfl
  | cons fields rows ih =>
    have index : start + 1 + rows.length = start + (fields :: rows).length := by simp; omega
    rw [List.map_cons, List.cons_append, recordsObject, ih, index]
    rfl

theorem failsChange {c : Call} {fault : Fault} (fails : c.Fails table fault) :
    c.change table = .misuse fault := by
  cases fails with
  | unknown other =>
    obtain ⟨cause, unread⟩ := (readUnknown _).mpr other
    simp only [change, filter?, unread]
    rfl
  | @element rows item after other =>
    have stopped : recordsFrom table 0 (rows.map .object ++ _ :: after) = _ :=
      recordsStopped rows after other 0
    rw [Nat.zero_add] at stopped
    exact congrArg (Query.Change.settled .insert) stopped
  | @scalar j other another =>
    cases j with
    | object fields => exact absurd rfl (other fields)
    | array items => exact absurd rfl (another items)
    | _ => rfl
  | @fieldless j other =>
    cases j with
    | object fields => exact absurd rfl (other fields)
    | _ => rfl
  | _ => rfl

theorem changeFails {c : Call} {fault : Fault} (misused : c.change table = .misuse fault) :
    c.Fails table fault := by
  cases c with
  | not column operator value =>
    simp only [change, filter?] at misused
    split at misused
    · cases misused
    · rename_i cause unread
      cases misused
      exact .unknown ((readUnknown operator).mp ⟨cause, unread⟩)
  | contains column payload =>
    cases payload with
    | error message => cases misused; exact .uncontained
    | ok j => cases misused
  | insert payload =>
    cases payload with
    | error message => cases misused; exact .uninserted
    | ok j =>
      cases j with
      | object fields => cases misused
      | array items =>
        change Query.Change.settled .insert (recordsFrom table 0 items) = _ at misused
        rcases elementsSplit items with ⟨rows, rfl⟩ | ⟨rows, item, after, rfl, other⟩
        · rw [recordsAll] at misused
          cases misused
        · rw [recordsStopped rows after other, Nat.zero_add] at misused
          cases misused
          exact .element other
      | _ => cases misused; exact .scalar nofun nofun
  | update payload =>
    cases payload with
    | error message => cases misused; exact .unset
    | ok j =>
      cases j with
      | object fields => cases misused
      | _ => cases misused; exact .fieldless nofun
  | _ => cases misused

end Call

namespace Query

theorem misuseKept {q : Query} {fault : Fault} (misused : q.misuse = some fault) (ds : List Change) :
    (q.changes ds).misuse = some fault := by
  induction ds generalizing q with
  | nil => exact misused
  | cons d ds ih =>
    refine ih ?_
    cases d with
    | misuse later => exact (congrArg (·.or (some later)) misused).trans rfl
    | _ => exact misused

theorem firstMisuse {q : Query} (clean : q.misuse = none) {before : List Call} {c : Call} {fault : Fault}
    (accepted : ∀ b ∈ before, ∀ other, ¬ b.Fails q.table other) (fails : c.Fails q.table fault)
    (after : List Call) : (q.calls (before ++ c :: after)).misuse = some fault := by
  have none : (before.map (Call.change q.table)).filter (·.group = .misuse) = [] := by
    rw [List.filter_eq_nil_iff]
    intro d member misuse
    obtain ⟨b, called, rfl⟩ := List.mem_map.mp member
    cases changed : b.change q.table with
    | misuse other => exact accepted b called other (Call.changeFails changed)
    | _ => rw [changed] at misuse; cases misuse
  have unused : (q.changes (before.map (Call.change q.table))).misuse = q.misuse := by
    have within := changesWithin (SameIn.refl q .misuse) (before.map (Call.change q.table))
    rwa [none] at within
  rw [callsChanges, List.map_append, List.map_cons, Call.failsChange fails, changes, List.foldl_append]
  refine misuseKept (q := (q.changes _).fail fault) ?_ _
  exact congrArg (·.or (some fault)) (unused.trans clean)

theorem planMisused {q : Query} {fault : Fault} (misused : q.misuse = some fault) :
    q.plan = .error (.fault fault.asMisuse) := by
  unfold plan
  rw [misused]

theorem unevenFound {names : List Text} (first : Record) {row : Record} {rest : List Record}
    (member : row ∈ rest) (other : row.length ≠ names.length ∨ ∃ name ∈ names, name ∉ Record.keys row) :
    ∃ found, uneven? names (first :: rest) = some found := by
  refine Option.isSome_iff_exists.mp (List.find?_isSome.mpr ?_)
  rw [← List.zipIdx_map_fst 1 rest] at member
  obtain ⟨⟨row, index⟩, inside, rfl⟩ := List.mem_map.mp member
  refine ⟨(row, index), inside, ?_⟩
  have size : (Record.keys row).length = row.length := List.length_map _
  have differs : sameNames names row = false := by
    rw [sameNamesKeys, size, Bool.and_eq_false_iff]
    refine other.imp decide_eq_false fun ⟨name, listed, absent⟩ => List.all_eq_false.mpr ?_
    exact ⟨name, listed, by simpa using absent⟩
  exact congrArg (!·) differs

theorem planUneven {q : Query} {first row : Record} {rest : List Record}
    (insert : q.insert = some (first :: rest)) (member : row ∈ rest)
    (other : row.length ≠ first.length ∨ ∃ name ∈ Record.keys first, name ∉ Record.keys row) :
    ∃ fault, q.plan = .error (.fault fault) := by
  have size : (Record.keys first).length = first.length := List.length_map _
  rw [← size] at other
  obtain ⟨found, uneven⟩ := unevenFound first member other
  cases misuse : q.misuse with
  | some fault => exact ⟨_, planMisused misuse⟩
  | none =>
    unfold plan statements
    rw [misuse, insert]
    simp only [insertStatements, uneven]
    exact ⟨_, rfl⟩

theorem planUnset {q : Query} (insert : q.insert = none) (update : q.update = some []) :
    ∃ fault, q.plan = .error (.fault fault) := by
  cases misuse : q.misuse with
  | some fault => exact ⟨_, planMisused misuse⟩
  | none =>
    unfold plan statements
    rw [misuse, insert, update]
    exact ⟨_, rfl⟩

theorem planEmpty {q : Query} (misuse : q.misuse = none) (insert : q.insert = some []) :
    ∃ plan, q.plan = .ok plan ∧ plan.statements = [] := by
  unfold plan statements
  rw [misuse, insert]
  exact ⟨_, rfl, rfl⟩

end Query

namespace Pool

def Calm (p : Pool) : Prop := ∀ elapsed, p.reaper ≠ .running elapsed true

theorem settleCalm {p : Pool} (calm : p.Calm) : p.settle = (p, []) := by
  unfold settle
  split
  · rename_i elapsed due
    exact absurd due (calm elapsed)
  · rfl

theorem settledCalm (p : Pool) : p.settle.1.Calm := by
  unfold settle
  split
  · rename_i elapsed due
    unfold tick
    rw [due]
    dsimp only
    split
    · exact nofun
    · exact nofun
  · rename_i calm
    exact calm

def awakened (p : Pool) : Pool :=
  if p.closed then { p with reaper := .ended }
  else { p with reaper := .running 0 false, idle := p.idle.filter p.fresh }

theorem wakeSettled {p : Pool} (dormant : p.reaper = .dormant) : p.wake.1.settle.1 = p.awakened := by
  unfold wake
  rw [dormant]
  dsimp only [settle, tick]
  unfold awakened
  split
  · rfl
  · rfl

theorem wakeUndisturbed {p : Pool} (awake : p.reaper ≠ .dormant) : p.wake = (p, []) := by
  unfold wake
  split
  · rename_i dormant
    exact absurd dormant awake
  · rfl

end Pool

namespace Session

inductive Reachable : Pool → Prop
  | start {mode : Mode} {config : Configuration} {listening : Bool} {report : Report} {p : Pool}
      (started : start mode config listening = .ok (report, p)) : Reachable p
  | step {p : Pool} (reached : Reachable p) (s : Step) : Reachable (step p s).2

theorem reachableCalm {p : Pool} (reached : Reachable p) : p.Calm := by
  cases reached with
  | step reached s => exact Pool.settledCalm _
  | @start mode config listening report p started =>
    unfold start at started
    cases valid : config.validate with
    | error fault =>
      rw [valid] at started
      cases started
    | ok config =>
      rw [valid] at started
      cases started
      cases mode with
      | _ => exact nofun

variable {p : Pool} {q : Query}

theorem stepUntouched (calm : p.Calm) {script : Script} {outcome : Outcome} {events : List Event}
    (ran : runQuery p q script = ⟨outcome, p, [], events⟩) :
    let report := (step p (.query q script)).1
    report.outcome = outcome ∧ report.exchanges = [] ∧ report.status = p.status ∧
      (step p (.query q script)).2 = p := by
  have acted : act p (.query q script) = ⟨outcome, p, [], events⟩ := ran
  unfold step
  rw [acted]
  dsimp only
  rw [Pool.settleCalm calm]
  exact ⟨rfl, rfl, rfl, rfl⟩

theorem hollowEnvelope (plan : Plan) :
    Envelope.ofOutput plan {} = .ok (if plan.single then none else some (.many [])) (some 0) := by
  unfold Envelope.ofOutput
  simp

theorem stepHollow (calm : p.Calm) {plan : Plan} (planned : q.plan = .ok plan) (none : plan.statements = [])
    (script : Script) :
    let report := (step p (.query q script)).1
    let next := (step p (.query q script)).2
    report.outcome = .envelope (.ok (if plan.single then .none else some (.many [])) (some 0)) ∧
      report.exchanges = [] ∧ report.status = next.status ∧
      next = if p.reaper = .dormant then p.awakened else p := by
  have ran : act p (.query q script) = ⟨.envelope (.ofOutput plan {}), p.wake.1, [], p.wake.2 ++ []⟩ := by
    change runQuery p q script = _
    unfold runQuery
    rw [planned]
    dsimp only [runPlan, logged]
    rw [none]
    rfl
  unfold step
  rw [ran]
  refine ⟨congrArg Outcome.envelope (hollowEnvelope plan), rfl, rfl, ?_⟩
  by_cases dormant : p.reaper = .dormant
  · rw [if_pos dormant]
    exact Pool.wakeSettled dormant
  · rw [if_neg dormant]
    dsimp only
    rw [Pool.wakeUndisturbed dormant, Pool.settleCalm calm]

theorem misuseStopsBeforePool :
    (∀ (table : Text) (before : List Call) (c : Call) (after : List Call) (fault : Fault),
      (∀ b ∈ before, ∀ other, ¬ b.Fails table other) → c.Fails table fault →
      ((Query.of table).calls (before ++ c :: after)).plan = .error (.fault fault)) ∧
    (∀ p, Reachable p → ∀ (q : Query) (script : Script),
      let report := (step p (.query q script)).1
      let next := (step p (.query q script)).2
      (∀ fault, q.plan = .error (.fault fault) → report.outcome = .envelope (.failure fault) ∧
        report.exchanges = [] ∧ report.status = p.status ∧ next = p) ∧
      (q.plan = .error .overflow → report.outcome = .stopped ∧
        report.exchanges = [] ∧ report.status = p.status ∧ next = p) ∧
      (∀ plan, q.plan = .ok plan → plan.statements = [] →
        report.outcome = .envelope (.ok (if plan.single then none else some (.many [])) (some 0)) ∧
        report.exchanges = [] ∧ report.status = next.status ∧
        next = if p.reaper = .dormant then p.awakened else p)) ∧
    (∀ (q : Query) (first : Record) (rest : List Record), q.insert = some (first :: rest) →
      (∃ row ∈ rest, row.length ≠ first.length ∨ ∃ name ∈ Record.keys first, name ∉ Record.keys row) →
      ∃ fault, q.plan = .error (.fault fault)) ∧
    (∀ q : Query, q.insert = none → q.update = some [] → ∃ fault, q.plan = .error (.fault fault)) ∧
    (∀ q : Query, q.misuse = none → q.insert = some [] → ∃ plan, q.plan = .ok plan ∧ plan.statements = []) := by
  refine ⟨?_, ?_, ?_, fun q => Query.planUnset, fun q => Query.planEmpty⟩
  · intro table before c after fault accepted fails
    rw [Query.planMisused (Query.firstMisuse rfl accepted fails after), fails.asMisuse]
  · intro p reached q script
    have calm := reachableCalm reached
    intro report next
    have faulty : ∀ fault, q.plan = .error (.fault fault) →
        runQuery p q script = ⟨.envelope (.failure fault), p, [], [.queryFailed (some q.table) fault]⟩ := by
      intro fault unplanned
      unfold runQuery
      rw [unplanned]
    have stopped : q.plan = .error .overflow → runQuery p q script = ⟨.stopped, p, [], []⟩ := by
      intro unplanned
      unfold runQuery
      rw [unplanned]
    exact ⟨fun fault unplanned => stepUntouched calm (faulty fault unplanned),
      fun unplanned => stepUntouched calm (stopped unplanned),
      fun plan planned none => stepHollow calm planned none script⟩
  · intro q first rest insert ⟨row, member, other⟩
    exact Query.planUneven insert member other

theorem misuseStopsBeforeExhaustedPool :
    let opened : Pool := { config := { maxSize := 1 }, listening := true, reaper := .running 0 false }
    let p := (step opened (.hold {})).2
    let q := (Query.of "users".toList).calls
      [.select "id".toList, .not "id".toList "near".toList .null, .insert (.ok (.array []))]
    Reachable p ∧ p.lent.length = p.config.maxSize ∧
      q.plan = .error (.fault (.validation (.unknownNegated "near".toList))) ∧ (step p (.query q {})).2 = p := by
  intro opened p q
  have started : Session.start .connected { maxSize := 1 } true = .ok (_, opened) := rfl
  have reached : Reachable p := .step (.start started) (.hold {})
  have unknown : Call.Fails "users".toList (.not "id".toList "near".toList .null)
      (.validation (.unknownNegated "near".toList)) := .unknown (by decide)
  have accepted : ∀ b ∈ [Call.select "id".toList], ∀ other, ¬ b.Fails "users".toList other := by
    intro b member other fails
    rw [List.mem_singleton.mp member] at fails
    cases fails
  obtain ⟨kept, stopped, -⟩ := misuseStopsBeforePool
  have unplanned := kept "users".toList [.select "id".toList] _ [.insert (.ok (.array []))] _ accepted unknown
  exact ⟨reached, rfl, unplanned, ((stopped p reached q {}).1 _ unplanned).2.2.2⟩

theorem emptyInsertReapsIdle :
    let opened : Pool := { config := { idleTimeout := 0 }, listening := true, reaper := .dormant }
    let p := (step (step opened (.hold {})).2 .release).2
    let q := (Query.of "users".toList).calls [.insert (.ok (.array []))]
    Reachable p ∧ q.plan.map Plan.statements = .ok [] ∧
      p.status = ⟨20, 1, 1, 0⟩ ∧ (step p (.query q {})).1.status = ⟨20, 0, 0, 0⟩ := by
  intro opened p q
  have started : Session.start .lazily { idleTimeout := 0 } true = .ok (_, opened) := rfl
  have reached : Reachable p := .step (.step (.start started) (.hold {})) .release
  exact ⟨reached, rfl, rfl, by decide⟩

end Session
end TableGateway
