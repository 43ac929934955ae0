import TableGateway.Proofs.Transaction

/-! Running the statements of a plan. Each is logged and then issued, in the order of the plan, and the first that is
answered with a fault is the last. A run gives that fault, or else all records in the order of the statements and the
sum of their counts. A sum that does not fit stops it before either. -/
namespace TableGateway

namespace Output

def total : List Output → Nat
  | [] => 0
  | part :: parts => part.affected.toNat + total parts

structure Joins (parts : List Output) (output : Output) : Prop where
  records : output.records = parts.flatMap Output.records
  affected : output.affected.toNat = total parts

theorem totalAppend (parts more : List Output) : total (parts ++ more) = total parts + total more := by
  induction parts with
  | nil => exact (Nat.zero_add _).symm
  | cons part rest ih => rw [List.cons_append, total, total, ih, Nat.add_assoc]

theorem appendOverflows {a b : Output} : a.append b = none ↔ 2 ^ 64 ≤ a.affected.toNat + b.affected.toNat := by
  unfold append Word.add?
  split
  · rename_i fits
    exact ⟨nofun, fun excess => absurd fits (Nat.not_lt.mpr excess)⟩
  · rename_i excess
    exact ⟨fun _ => Nat.not_lt.mp excess, fun _ => rfl⟩

theorem appendJoins {a b sum : Output} (joined : a.append b = some sum) : Joins [a, b] sum := by
  obtain ⟨n, added, rfl⟩ := Option.map_eq_some_iff.mp joined
  obtain ⟨rfl, fits⟩ := Word.sumIff.mp added
  exact ⟨by simp, UInt64.toNat_ofNat_of_lt' fits⟩

theorem joinsNone : Joins [] {} := ⟨rfl, rfl⟩

theorem Joins.next {parts : List Output} {output part sum : Output} (joins : Joins parts output)
    (joined : output.append part = some sum) : Joins (parts ++ [part]) sum where
  records := by
    rw [(appendJoins joined).records, List.flatMap_append, ← joins.records, List.flatMap_cons]
  affected := by
    rw [(appendJoins joined).affected, totalAppend, ← joins.affected]
    rfl

end Output

namespace Client

inductive Act
  | log (event : Event)
  | issue (statement : Statement) (answer : Except Fault Output)

def traced {σ : Type} (c : Client σ) : Client (σ × List Act) where
  emit event s := (c.emit event s.1, s.2 ++ [.log event])
  query statement s :=
    let (answer, next) := c.query statement s.1
    (answer, next, s.2 ++ [.issue statement answer])

end Client

namespace Plan

variable {σ : Type}

def event (p : Plan) (statement : Statement) : Event :=
  .statement p.action p.table statement.params.length statement.sql

def acts (p : Plan) (statement : Statement) (answer : Except Fault Output) : List Client.Act :=
  [.log (p.event statement), .issue statement answer]

def passed (p : Plan) (statements : List Statement) (parts : List Output) : List Client.Act :=
  (statements.zip parts).flatMap fun (statement, part) => p.acts statement (.ok part)

inductive Issues (p : Plan) (statements : List Statement) : List Client.Act → Except Halt Output → Prop
  | completed {parts : List Output} {output : Output} (answered : parts.length = statements.length)
      (joins : Output.Joins parts output) : Issues p statements (p.passed statements parts) (.ok output)
  | stopped {before after : List Statement} {statement : Statement} {parts : List Output} {fault : Fault}
      (place : statements = before ++ statement :: after) (answered : parts.length = before.length)
      (fits : Output.total parts < 2 ^ 64) :
      Issues p statements (p.passed before parts ++ p.acts statement (.error fault)) (.error (.fault fault))
  | overflow {before after : List Statement} {statement : Statement} {parts : List Output} {part : Output}
      (place : statements = before ++ statement :: after) (answered : parts.length = before.length)
      (fits : Output.total parts < 2 ^ 64) (excess : 2 ^ 64 ≤ Output.total parts + part.affected.toNat) :
      Issues p statements (p.passed before parts ++ p.acts statement (.ok part)) (.error .overflow)

theorem passedNext (p : Plan) {before : List Statement} {parts : List Output} (answered : parts.length = before.length)
    (statement : Statement) (part : Output) :
    p.passed (before ++ [statement]) (parts ++ [part]) = p.passed before parts ++ p.acts statement (.ok part) := by
  unfold passed
  rw [List.zip_append answered.symm, List.flatMap_append]
  rfl

theorem runCons (client : Client σ) (p : Plan) (output : Output) (statement : Statement) (rest : List Statement)
    (s : σ) : runFrom client p output (statement :: rest) s =
      match client.query statement (client.emit (p.event statement) s) with
      | (.error fault, s) => (.error (.fault fault), s)
      | (.ok part, s) =>
        match output.append part with
        | some output => runFrom client p output rest s
        | none => (.error .overflow, s) := rfl

theorem tracedQuery (client : Client σ) (p : Plan) (statement : Statement) (s : σ) (done : List Client.Act) :
    client.traced.query statement (client.traced.emit (p.event statement) (s, done)) =
      let answered := client.query statement (client.emit (p.event statement) s)
      (answered.1, answered.2, done ++ p.acts statement answered.1) := by
  simp only [Client.traced, acts, List.append_assoc, List.cons_append, List.nil_append]

theorem runUntraced (client : Client σ) (p : Plan) (statements : List Statement) (output : Output) (s : σ)
    (done : List Client.Act) :
    let ran := runFrom client.traced p output statements (s, done)
    (ran.1, ran.2.1) = runFrom client p output statements s := by
  induction statements generalizing output s done with
  | nil => rfl
  | cons statement rest ih =>
    rw [runCons, runCons, tracedQuery]
    obtain ⟨fault | part, next⟩ := client.query statement _
    · rfl
    · dsimp only
      cases output.append part with
      | none => rfl
      | some total => exact ih total next _

theorem runIssues (client : Client σ) (p : Plan) {before : List Statement} {parts : List Output} {output : Output}
    (answered : parts.length = before.length) (joins : Output.Joins parts output) (rest : List Statement) (s : σ) :
    let ran := runFrom client.traced p output rest (s, p.passed before parts)
    p.Issues (before ++ rest) ran.2.2 ran.1 := by
  induction rest generalizing before parts output s with
  | nil =>
    rw [List.append_nil]
    exact .completed answered joins
  | cons statement rest ih =>
    have fits : Output.total parts < 2 ^ 64 := joins.affected ▸ output.affected.toNat_lt
    rw [runCons, tracedQuery]
    obtain ⟨fault | part, next⟩ := client.query statement _
    · exact .stopped rfl answered fits
    · dsimp only
      cases joined : output.append part with
      | none => exact .overflow rfl answered fits (joins.affected ▸ Output.appendOverflows.mp joined)
      | some total =>
        have longer : (parts ++ [part]).length = (before ++ [statement]).length := by simp [answered]
        have later := ih longer (joins.next joined) next
        rw [passedNext p answered, List.append_assoc] at later
        exact later

theorem statementsIssued (p : Plan) (client : Client σ) (s : σ) :
    let ran := p.run client.traced (s, [])
    (ran.1, ran.2.1) = p.run client s ∧ p.Issues p.statements ran.2.2 ran.1 := by
  intro ran
  have none : ([] : List Output).length = ([] : List Statement).length := rfl
  exact ⟨runUntraced client p p.statements {} s [], runIssues client p none Output.joinsNone p.statements s⟩

theorem overflowingCountStops :
    let row : Statement := ⟨"INSERT INTO notes (name) VALUES ($1)".toList, [.null]⟩
    let refused : Fault := .query (.server "23505".toList)
    let p : Plan := ⟨.insert, "notes".toList, [row, row, row], false, false⟩
    let ran := p.run Recorder.client { answers := [.ok ⟨[], 18446744073709551615⟩, .ok ⟨[], 1⟩, .error refused] }
    ran.1 = .error .overflow ∧ ran.1 ≠ .error (.fault refused) ∧ ran.2.seen = [row, row] := by
  intro row refused p ran
  exact ⟨rfl, nofun, rfl⟩

end Plan
end TableGateway
