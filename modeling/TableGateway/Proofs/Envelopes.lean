import TableGateway.Proofs.Accounting
import TableGateway.Proofs.Issuing
import TableGateway.Proofs.Parameters

/-! The envelope of a query says one thing only: a fault, with nothing beside it, or a count and the rows. The rows are
those that the statements of the plan brought, as far as they were asked for; what they are cut to has no part in the
count. A query that stops the program has none. -/
namespace TableGateway

namespace Envelope

structure Failed (e : Envelope) (cause : Fault) : Prop where
  fault : e.fault = some cause
  data : e.data = none
  count : e.count = none
  rows : e.rows = []
  row : e.row? = none
  result : e.toResult = .error cause
  given : e.toRows = .error cause

structure Gives (e : Envelope) (single : Bool) (records : List Record) (count : UInt64) : Prop where
  fault : e.fault = none
  count : e.count = some count
  rows : e.rows = records
  data : e.data = if single then records.head?.map .one else some (.many records)
  blank : e.data = none ↔ single = true ∧ e.rows = []
  row : e.row? = records.head?
  result : e.toResult = .ok e.data
  given : e.toRows = .ok records

theorem failureFailed (fault : Fault) : (failure fault).Failed fault := ⟨rfl, rfl, rfl, rfl, rfl, rfl, rfl⟩

theorem manyGives (rows : List Record) (count : UInt64) :
    (ok (some (.many rows)) (some count)).Gives false rows count :=
  ⟨rfl, rfl, rfl, rfl, ⟨nofun, nofun⟩, rfl, rfl, rfl⟩

theorem oneGives (records : List Record) (count : UInt64) :
    (ok (records.head?.map .one) (some count)).Gives true (records.take 1) count := by
  cases records with
  | nil => exact ⟨rfl, rfl, rfl, rfl, ⟨fun _ => ⟨rfl, rfl⟩, fun _ => rfl⟩, rfl, rfl, rfl⟩
  | cons first rest => exact ⟨rfl, rfl, rfl, rfl, ⟨nofun, nofun⟩, rfl, rfl, rfl⟩

end Envelope

namespace Query

variable {q : Query} {plan : Plan} {parts : List Output} {output : Output}

def shown (q : Query) (parts : List Output) : List Record :=
  let records := if q.action ≠ .select ∧ q.returning = false then [] else parts.flatMap Output.records
  if q.single then records.take 1 else records

/-- A change counts what its statements touched, all together. A read counts its rows, of which there are fewer than
2^64 in any memory. -/
structure Counts (q : Query) (parts : List Output) (count : UInt64) : Prop where
  touched : q.action ≠ .select → count.toNat = Output.total parts
  read : q.action = .select → (parts.flatMap Output.records).length < 2 ^ 64 →
    count.toNat = (parts.flatMap Output.records).length

theorem planShape (planned : q.plan = .ok plan) : plan.action = q.action ∧ plan.single = q.single ∧
    plan.returnsRows = (q.action = .select || q.returning) := by
  obtain ⟨used, built⟩ := plannedStatements planned
  unfold Query.plan at planned
  rw [used, built] at planned
  have same := (Except.ok.inj planned).symm
  exact ⟨congrArg Plan.action same, congrArg Plan.single same, congrArg Plan.returnsRows same⟩

theorem outputGives (planned : q.plan = .ok plan) (joins : Output.Joins parts output) :
    ∃ count, q.Counts parts count ∧ (Envelope.ofOutput plan output).Gives q.single (q.shown parts) count := by
  obtain ⟨action, single, returns⟩ := planShape planned
  have kept : (if plan.returnsRows then output.records else []) =
      if q.action ≠ .select ∧ q.returning = false then [] else parts.flatMap Output.records := by
    rw [returns, joins.records]
    cases q.returning with
    | false => by_cases read : q.action = .select <;> simp [read]
    | true => simp
  refine ⟨if q.action = .select then UInt64.ofNat output.records.length else output.affected, ⟨?_, ?_⟩, ?_⟩
  · intro change
    rw [if_neg change, joins.affected]
  · intro read few
    rw [if_pos read, joins.records]
    exact UInt64.toNat_ofNat_of_lt' few
  · unfold Envelope.ofOutput shown
    dsimp only
    rw [action, single, kept]
    cases q.single with
    | false => exact Envelope.manyGives _ _
    | true => exact Envelope.oneGives _ _

-- A change that is to show one row and did not ask for rows: three rows were touched and none is shown.
example : Envelope.ofOutput ⟨.update, "users", [], false, true⟩ ⟨[[]], 3⟩ = .ok none (some 3) := rfl

end Query

namespace Transcript

inductive Brings : List Statement → List Reply → List Output → Prop
  | none (replies : List Reply) : Brings [] replies []
  | next {s : Statement} {rest : List Statement} {replies : List Reply} {part : Output} {parts : List Output}
      (first : Collected (replies.headD {}) (.ok part)) (others : Brings rest replies.tail parts) :
      Brings (s :: rest) replies (part :: parts)

theorem attemptCollected {s : Statement} {reply : Reply} {sent : Sent} {part : Output}
    (attempt : Attempt s reply sent (.ok part)) : Collected reply (.ok part) := by
  cases attempt with
  | prepared _ _ executed =>
    cases executed with
    | answered _ _ _ _ collected => exact collected

def Overflows (statements : List Statement) (replies : List Reply) : Prop :=
  ∃ done later parts, statements = done ++ later ∧ Brings done replies parts ∧ 2 ^ 64 ≤ Output.total parts

theorem statementsBring {output total : Output} {statements : List Statement} {replies : List Reply} {sent : Sent}
    {result : Except Halt Output} (run : Statements output statements replies sent result)
    (succeeded : result = .ok total) {given : List Output} (joins : Output.Joins given output) :
    ∃ parts, Brings statements replies parts ∧ Output.Joins (given ++ parts) total := by
  induction run generalizing given with
  | done output replies =>
    cases succeeded
    exact ⟨[], .none replies, (List.append_nil given).symm ▸ joins⟩
  | unsendable => cases succeeded
  | failed => cases succeeded
  | overflow => cases succeeded
  | @next _ part _ _ _ _ _ _ _ _ attempt joined _ ih =>
    obtain ⟨parts, brings, whole⟩ := ih succeeded (joins.next joined)
    rw [List.append_assoc] at whole
    exact ⟨part :: parts, .next (attemptCollected attempt) brings, whole⟩

theorem statementsOverflow {output : Output} {statements : List Statement} {replies : List Reply} {sent : Sent}
    {result : Except Halt Output} (run : Statements output statements replies sent result)
    (stopped : result = .error .overflow) {given : List Output} (joins : Output.Joins given output) :
    ∃ done later parts, statements = done ++ later ∧ Brings done replies parts ∧
      2 ^ 64 ≤ Output.total (given ++ parts) := by
  induction run generalizing given with
  | done => cases stopped
  | unsendable => cases stopped
  | failed => cases stopped
  | @overflow _ part s rest replies _ _ attempt excess =>
    refine ⟨[s], rest, [part], rfl, .next (attemptCollected attempt) (.none _), ?_⟩
    rw [Output.totalAppend, ← joins.affected]
    exact Output.appendOverflows.mp excess
  | @next _ part _ s _ _ _ _ _ _ attempt joined _ ih =>
    obtain ⟨done, later, parts, place, brings, excess⟩ := ih stopped (joins.next joined)
    rw [List.append_assoc] at excess
    exact ⟨s :: done, later, part :: parts, congrArg (s :: ·) place,
      .next (attemptCollected attempt) brings, excess⟩

theorem transactionRun {statements : List Statement} {script : Script} {sent : Sent} {result : Except Halt Output}
    (transaction : Transaction statements script sent result)
    (unreported : ∀ fault, result ≠ .error (.fault fault)) :
    ∃ run, Statements {} statements script.replies run result := by
  cases transaction with
  | unbegun => exact absurd rfl (unreported _)
  | uncommitted => exact absurd rfl (unreported _)
  | committed _ run => exact ⟨_, run⟩
  | rolledBack _ run => exact ⟨_, run⟩
  | lost _ run => exact ⟨_, run⟩

end Transcript

namespace Lease

open Transcript

theorem queryBrings {l : Lease} {s : Statement} {part : Output} (done : (l.query s).1 = .ok part) :
    Collected (l.channel.script.replies.headD {}) (.ok part) := by
  rw [(l.queryChannel s).1] at done
  by_cases zero : '\x00' ∈ s.sql
  · rw [Channel.queryUnsendable _ zero] at done
    cases done
  · obtain ⟨sent, attempt, -⟩ := l.channel.queryTranscript zero
    rw [done] at attempt
    exact attemptCollected attempt

theorem executeRuns {plan : Plan} {l : Lease} (alive : l.channel.connection.alive = true)
    (unreported : ∀ fault, (execute plan l).1 ≠ .error (.fault fault)) :
    ∃ sent, Statements {} plan.statements l.channel.script.replies sent (execute plan l).1 := by
  by_cases several : 2 ≤ plan.statements.length
  · obtain ⟨sent, transaction, -⟩ := executeTranscript several alive
    exact transactionRun transaction unreported
  · obtain ⟨sent, run, -⟩ := executeAlone several l
    exact ⟨sent, run⟩

theorem executeBrings {plan : Plan} {l : Lease} {output : Output} (alive : l.channel.connection.alive = true)
    (done : (execute plan l).1 = .ok output) :
    ∃ parts, Brings plan.statements l.channel.script.replies parts ∧ Output.Joins parts output := by
  obtain ⟨sent, run⟩ := executeRuns alive fun _ failed => nomatch done.symm.trans failed
  exact statementsBring run done Output.joinsNone

theorem executeOverflows {plan : Plan} {l : Lease} (alive : l.channel.connection.alive = true)
    (stopped : (execute plan l).1 = .error .overflow) :
    Overflows plan.statements l.channel.script.replies := by
  obtain ⟨sent, run⟩ := executeRuns alive fun _ failed => nomatch stopped.symm.trans failed
  exact statementsOverflow run stopped Output.joinsNone

end Lease

namespace Session

open Transcript

inductive Answered : Step → Outcome → Prop
  | failed {s : Step} {e : Envelope} {fault : Fault} (runs : s.runs = true) (failed : e.Failed fault) :
      Answered s (.envelope e)
  | query {q : Query} {script : Script} {plan : Plan} {parts : List Output} {e : Envelope} {count : UInt64}
      (planned : q.plan = .ok plan) (brings : Brings plan.statements script.replies parts)
      (counts : q.Counts parts count) (gives : e.Gives q.single (q.shown parts) count) :
      Answered (.query q script) (.envelope e)
  | raw {statement : Statement} {script : Script} {part : Output} {e : Envelope}
      (brings : Collected (script.replies.headD {}) (.ok part))
      (gives : e.Gives false part.records part.affected) : Answered (.raw statement script) (.envelope e)
  | unplanned {q : Query} {script : Script} (stopped : q.plan = .error .overflow) :
      Answered (.query q script) .stopped
  | overflow {q : Query} {script : Script} {plan : Plan} (planned : q.plan = .ok plan)
      (overflows : Overflows plan.statements script.replies) : Answered (.query q script) .stopped
  | other {s : Step} (outcome : Outcome) (idle : s.runs = false) : Answered s outcome

variable {α : Type}

theorem connectionResult (p : Pool) (script : Script) (run : Lease → Except Halt α × Lease) :
    (∃ cause, (withConnection p script run).result = .error (.fault (.acquire cause))) ∨
      ∃ l : Lease, l.channel.connection.alive = true ∧ l.channel.script = script ∧
        (withConnection p script run).result = (run l).1 := by
  have opens := (p.checkoutOpens script).1
  unfold withConnection
  generalize p.checkout script = answer at *
  obtain ⟨cause | c, opening, next⟩ := answer
  · exact .inl ⟨cause, rfl⟩
  · exact .inr ⟨⟨⟨c, script, opening⟩, next, []⟩, opens c rfl, rfl, rfl⟩

inductive Enclosed (script : Script) (wrap : α → Envelope) (run : Lease → Except Halt α × Lease) : Outcome → Prop
  | failed (fault : Fault) : Enclosed script wrap run (.envelope (.failure fault))
  | stopped {l : Lease} (alive : l.channel.connection.alive = true) (scripted : l.channel.script = script)
      (excess : (run l).1 = .error .overflow) : Enclosed script wrap run .stopped
  | done {l : Lease} {a : α} (alive : l.channel.connection.alive = true) (scripted : l.channel.script = script)
      (given : (run l).1 = .ok a) : Enclosed script wrap run (.envelope (wrap a))

theorem enclosedAnswer (p : Pool) (script : Script) (table : Option Text) (wrap : α → Envelope)
    (run : Lease → Except Halt α × Lease) :
    Enclosed script wrap run (enclose table wrap (withConnection p script run)).result := by
  have answered := connectionResult p script run
  unfold enclose
  generalize (withConnection p script run).result = result at *
  obtain ⟨fault | _⟩ | a := result
  · exact .failed fault
  · rcases answered with ⟨cause, refused⟩ | ⟨l, alive, scripted, given⟩
    · cases refused
    · exact .stopped alive scripted given.symm
  · rcases answered with ⟨cause, refused⟩ | ⟨l, alive, scripted, given⟩
    · cases refused
    · exact .done alive scripted given.symm

theorem queryAnswered (p : Pool) (q : Query) (script : Script) :
    Answered (.query q script) (runQuery p q script).result := by
  unfold runQuery
  cases planned : q.plan with
  | error halt =>
    cases halt with
    | fault fault => exact .failed rfl (Envelope.failureFailed fault)
    | overflow => exact .unplanned planned
  | ok plan =>
    dsimp only [runPlan, logged]
    split
    · rename_i empty
      have brings : Brings plan.statements script.replies [] := by
        rw [List.isEmpty_iff.mp empty]
        exact .none _
      obtain ⟨count, counts, gives⟩ := Query.outputGives planned Output.joinsNone
      exact .query planned brings counts gives
    · have enclosed := enclosedAnswer p.wake.1 script (some plan.table) (.ofOutput plan) (Lease.execute plan)
      generalize (enclose _ _ _).result = outcome at *
      cases enclosed with
      | failed fault => exact .failed rfl (Envelope.failureFailed fault)
      | stopped alive scripted excess => exact .overflow planned (scripted ▸ Lease.executeOverflows alive excess)
      | done alive scripted given =>
        obtain ⟨parts, brings, joins⟩ := Lease.executeBrings alive given
        obtain ⟨count, counts, gives⟩ := Query.outputGives planned joins
        exact .query planned (scripted ▸ brings) counts gives

theorem rawAnswered (p : Pool) (statement : Statement) (script : Script) :
    Answered (.raw statement script) (runRaw p statement script).result := by
  dsimp only [runRaw, logged]
  have enclosed := enclosedAnswer p.wake.1 script none .ofRows (Lease.answer statement)
  generalize (enclose _ _ _).result = outcome at *
  cases enclosed with
  | failed fault => exact .failed rfl (Envelope.failureFailed fault)
  | @stopped l _ _ excess =>
    unfold Lease.answer at excess
    generalize (l.query statement).1 = answer at excess
    cases answer with
    | error fault => cases excess
    | ok part => cases excess
  | done _ scripted given =>
    have brings := Lease.queryBrings (Halt.faultOk.mp given)
    exact .raw (scripted ▸ brings) (Envelope.manyGives _ _)

theorem stepAnswered (p : Pool) (s : Step) : Answered s (step p s).1.outcome := by
  cases s with
  | query q script => exact queryAnswered p q script
  | raw statement script => exact rawAnswered p statement script
  | _ => exact .other _ rfl

theorem queriesAnswered (p : Pool) (ss : List Step) :
    List.Forall₂ (fun s report => Answered s report.outcome) ss (steps p ss).1 := by
  induction ss generalizing p with
  | nil => exact .nil
  | cons s rest ih => exact .cons (stepAnswered p s) (ih (step p s).2)

theorem overflowingCountUnanswered :
    let opened : Pool := { config := {}, listening := true, reaper := .absent }
    let row : Record := [("name".toList, .null)]
    let q : Query := { table := "users".toList, insert := some [row, row] }
    let most : Reply := { params := [.scalar .text], tag := .text "INSERT 0 18446744073709551615".toList }
    let one : Reply := { params := [.scalar .text], tag := .text "INSERT 0 1".toList }
    (∃ first, start .wrapped {} true = .ok (first, opened)) ∧
      (step opened (.query q { replies := [most, one] })).1.outcome = .stopped := by
  intro opened row q most one
  exact ⟨⟨_, rfl⟩, by decide +kernel⟩

end Session
end TableGateway
