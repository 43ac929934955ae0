import TableGateway.Proofs.Borrowing

/-! Rows that cannot be decoded are found behind the server's work. A transaction is rolled back then and leaves
nothing; a plan of one statement runs without one, and what the server completed of it stands. -/
namespace TableGateway
namespace Transcript

variable {column : Text} {cause : DecodeCause}

theorem attemptUndecoded {s : Statement} {reply : Reply} {sent : Sent}
    (attempt : Attempt s reply sent (.error (.decode column cause))) :
    ∃ bytes answer, sent = [(.prepare s.sql, .acknowledged), (.bind bytes, answer)] ∧ Verdict reply answer := by
  cases attempt with
  | prepared _ _ executed =>
    cases executed with
    | answered _ _ _ verdict => exact ⟨_, _, rfl, verdict⟩

theorem verdictKept {reply : Reply} {answer : Answer} (verdict : Verdict reply answer) : answer ≠ .dropped := by
  cases verdict with
  | _ => exact nofun

theorem statementsUndecoded {output : Output} {statements : List Statement} {replies : List Reply} {sent : Sent}
    {result : Except Halt Output} (run : Statements output statements replies sent result)
    (undecoded : result = .error (.fault (.decode column cause))) : sent.lost = false := by
  induction run with
  | done => cases undecoded
  | unsendable => cases undecoded
  | overflow => cases undecoded
  | failed _ attempt =>
    cases undecoded
    obtain ⟨bytes, answer, rfl, verdict⟩ := attemptUndecoded attempt
    simp [Sent.lost, verdictKept verdict]
  | next _ attempt _ _ ih => rw [lostAppend, attemptKept attempt, ih undecoded, Bool.or_false]

theorem transactionUndecoded {statements : List Statement} {script : Script} {sent : Sent}
    (transaction : Transaction statements script sent (.error (.fault (.decode column cause)))) :
    ∃ run, sent = starting none :: run ++ [rollingBack script.rollback] ∧ Plain run := by
  cases transaction with
  | rolledBack _ run => exact ⟨_, rfl, statementsPlain run⟩
  | lost _ run dead => cases (statementsUndecoded run rfl).symm.trans dead

theorem aloneUndecoded {s : Statement} {replies : List Reply} {sent : Sent}
    (run : Statements {} [s] replies sent (.error (.fault (.decode column cause)))) :
    ∃ bytes answer, sent = [(.prepare s.sql, .acknowledged), (.bind bytes, answer)] ∧
      Verdict (replies.headD {}) answer := by
  cases run with
  | failed _ attempt => exact attemptUndecoded attempt
  | next _ _ _ others => cases others

end Transcript

theorem Outcome.resultFault {plan : Plan} {result : Except Halt Output} {e : Envelope} {fault : Fault}
    (outcome : ofResult plan result = .envelope e) (failed : e.fault = some fault) :
    result = .error (.fault fault) := by
  obtain ⟨f | _⟩ | output := result
  · cases outcome
    exact congrArg (Except.error ∘ Halt.fault) (Option.some.inj failed)
  · cases outcome
  · cases outcome
    cases failed

namespace Lease

open Transcript

theorem executeUndecoded {plan : Plan} {l : Lease} {column : Text} {cause : DecodeCause}
    (alive : l.channel.connection.alive = true) (some : plan.statements.isEmpty = false)
    (undecoded : (execute plan l).1 = .error (.fault (.decode column cause))) :
    ∃ sent, l.channel.Sends sent (execute plan l).2.channel ∧
      (2 ≤ plan.statements.length ∧
          Transaction plan.statements l.channel.script sent (.error (.fault (.decode column cause))) ∨
        ∃ s, plan.statements = [s] ∧
          Statements {} [s] l.channel.script.replies sent (.error (.fault (.decode column cause)))) := by
  by_cases several : 2 ≤ plan.statements.length
  · obtain ⟨sent, transaction, sends⟩ := executeTranscript several alive
    rw [undecoded] at transaction
    exact ⟨sent, sends, .inl ⟨several, transaction⟩⟩
  · have length := List.length_pos_iff.mpr (List.isEmpty_eq_false_iff.mp some)
    obtain ⟨s, one⟩ := List.length_eq_one_iff.mp (by omega : plan.statements.length = 1)
    obtain ⟨sent, run, sends⟩ := executeAlone several l
    rw [undecoded] at run
    exact ⟨sent, sends, .inr ⟨s, one, one ▸ run⟩⟩

end Lease

namespace Query

theorem conditionStops {q : Query} {halt : Halt} (failed : q.condition = .error halt) : halt = .overflow := by
  unfold condition at failed
  generalize WhereClause.compile q.filters q.fragments 1 = compiled at failed
  cases compiled with
  | none => exact (Except.error.inj failed).symm
  | some c => cases failed

theorem updateDecodes (q : Query) (fields : Record) (column : Text) (cause : DecodeCause) :
    q.updateStatement fields ≠ .error (.fault (.decode column cause)) := by
  unfold updateStatement
  split
  · exact nofun
  · cases condition : q.condition with
    | error halt =>
      rw [conditionStops condition]
      exact nofun
    | ok c =>
      dsimp only [bind, Except.bind]
      generalize Placeholder.shift fields.length c.sql = shifted
      cases shifted with
      | _ => exact nofun

theorem statementsDecode (q : Query) (column : Text) (cause : DecodeCause) :
    q.statements ≠ .error (.fault (.decode column cause)) := by
  have conditioned : ∀ build : WhereClause → List Statement,
      q.condition.map build ≠ .error (.fault (.decode column cause)) := by
    intro build
    cases condition : q.condition with
    | error halt =>
      rw [conditionStops condition]
      exact nofun
    | ok c => exact nofun
  unfold statements
  split
  · unfold insertStatements
    split
    · exact nofun
    · dsimp only
      split
      · exact nofun
      · exact nofun
  · rename_i fields _ _
    have updated := q.updateDecodes fields column cause
    generalize q.updateStatement fields = built at updated
    cases built with
    | error halt => exact fun failed => updated (congrArg Except.error (Except.error.inj failed))
    | ok s => exact nofun
  · exact conditioned _
  · exact conditioned _

theorem planDecodes (q : Query) (column : Text) (cause : DecodeCause) :
    q.plan ≠ .error (.fault (.decode column cause)) := by
  have none := q.statementsDecode column cause
  unfold plan
  split
  · rename_i misuse _
    cases misuse with
    | _ => exact nofun
  · generalize q.statements = compiled at none
    cases compiled with
    | ok statements => exact nofun
    | error halt => exact fun failed => none (congrArg Except.error (Except.error.inj failed))

end Query

namespace Session

open Transcript

/-- What the server completed outside of the transactions that were begun among these exchanges. -/
def standing (begun : Bool) : List Exchange → List Exchange
  | [] => []
  | x :: rest =>
    match x.message, x.answer with
    | .simple sql, answer => standing (sql = "START TRANSACTION".toList && answer = .acknowledged) rest
    | _, .completed => if begun then standing begun rest else x :: standing begun rest
    | _, _ => standing begun rest

theorem standingOpening {p next : Pool} {answer : Except AcquireCause Connection} {opening : List Exchange}
    (lends : p.Lends answer opening next) (rest : List Exchange) :
    standing false (opening ++ rest) = standing false rest := by
  rcases lends.opening with rfl | ⟨user, database, password, answer, rfl, pending⟩
  · rfl
  · cases answer with
    | completed => exact absurd rfl pending
    | _ => rfl

theorem standingBegun {sent : Sent} (plain : Plain sent) (id : Nat) (rest : List Exchange) :
    standing true (sent.over id ++ rest) = standing true rest := by
  induction sent with
  | nil => rfl
  | cons x later ih =>
    have others := ih fun y member => plain y (List.mem_cons_of_mem x member)
    obtain ⟨message, answer⟩ := x
    rcases plain _ List.mem_cons_self with ⟨sql, rfl⟩ | ⟨params, rfl⟩
    · cases answer with
      | _ => exact others
    · cases answer with
      | _ => exact others

variable {p : Pool} {q : Query} {script : Script} {column : Text} {cause : DecodeCause}

theorem undecodedRan {e : Envelope} (outcome : (step p (.query q script)).1.outcome = .envelope e)
    (undecoded : e.fault = some (.decode column cause)) :
    ∃ plan c opening lent sent, q.plan = .ok plan ∧ p.wake.1.Lends (.ok c) opening lent ∧
      (step p (.query q script)).1.exchanges = opening ++ sent.over c.id ∧
      (2 ≤ plan.statements.length ∧
          Transaction plan.statements script sent (.error (.fault (.decode column cause))) ∨
        ∃ s, plan.statements = [s] ∧
          Statements {} [s] script.replies sent (.error (.fault (.decode column cause)))) := by
  -- neither compiling nor asking for a connection ends in a decode fault, so there was a run
  have ran : (runQuery p q script).result = .envelope e := outcome
  cases planned : q.plan with
  | error halt =>
    unfold runQuery at ran
    rw [planned] at ran
    cases halt with
    | overflow => cases ran
    | fault fault =>
      cases ran
      cases undecoded
      exact absurd planned (q.planDecodes column cause)
  | ok plan =>
    cases hollow : plan.statements.isEmpty with
    | true =>
      unfold runQuery at ran
      rw [planned] at ran
      dsimp only [runPlan, logged] at ran
      rw [if_pos hollow] at ran
      cases ran
      cases undecoded
    | false =>
      obtain ⟨enclosed, exchanges⟩ :
          (step p (.query q script)).1.outcome = _ ∧ (step p (.query q script)).1.exchanges = _ :=
        stepPlanned planned hollow
      have failed := Outcome.resultFault (enclosed.symm.trans outcome) undecoded
      have lends := p.wake.1.checkoutLends script
      cases obtained : p.wake.1.checkout script with
      | mk answer rest =>
        obtain ⟨opening, lent⟩ := rest
        rw [obtained] at lends
        cases answer with
        | error cause =>
          unfold withConnection at failed
          rw [obtained] at failed
          cases failed
        | ok c =>
          obtain ⟨result, exchanged⟩ := connectedRun obtained (Lease.execute plan)
          rw [result] at failed
          obtain ⟨sent, sends, spoken⟩ := Lease.executeUndecoded (l := ⟨⟨c, script, opening⟩, lent, []⟩)
            lends.alive hollow failed
          rw [exchanged, sends.exchanges] at exchanges
          exact ⟨plan, c, opening, lent, sent, rfl, lends, exchanges, spoken⟩

theorem standingAlone {reply : Reply} {answer : Answer} (verdict : Verdict reply answer) (id : Nat) (sql : Text)
    (bytes : List (Option Bytes)) :
    standing false (Sent.over id [(.prepare sql, .acknowledged), (.bind bytes, answer)]) =
      if reply.error = none then [⟨id, .bind bytes, .completed⟩] else [] := by
  cases verdict with
  | refused error =>
    rw [error]
    rfl
  | completed error =>
    rw [error]
    rfl

theorem rolledBackUncommitted {run : Sent} (plain : Plain run) (refused : Option Text) :
    ∀ x ∈ starting none :: run ++ [rollingBack refused], x.1 ≠ .simple "COMMIT".toList := by
  intro x member
  rcases List.mem_append.mp member with before | last
  · rcases List.mem_cons.mp before with rfl | inside
    · exact fun same => absurd (Message.simple.inj same) (by decide)
    · exact plain.uncommanded x inside _
  · rw [List.mem_singleton.mp last]
    exact fun same => absurd (Message.simple.inj same) (by decide)

theorem standingRolledBack {run : Sent} (plain : Plain run) (refused : Option Text) (id : Nat) :
    standing false (Sent.over id (starting none :: run ++ [rollingBack refused])) = [] := by
  have begun : standing false (Sent.over id (starting none :: run ++ [rollingBack refused])) =
      standing true (run.over id ++ Sent.over id [rollingBack refused]) := by
    rw [List.cons_append, ← overAppend]
    rfl
  rw [begun, standingBegun plain]
  rfl

theorem undecodedNotCommitted {e : Envelope} (outcome : (step p (.query q script)).1.outcome = .envelope e)
    (undecoded : e.fault = some (.decode column cause)) :
    let exchanges := (step p (.query q script)).1.exchanges
    (∀ x ∈ exchanges, x.message ≠ .simple "COMMIT".toList) ∧ ∃ plan, q.plan = .ok plan ∧
      (2 ≤ plan.statements.length ∧ standing false exchanges = [] ∧
          (∃ x, exchanges.getLast? = some x ∧ x.message = .simple "ROLLBACK".toList) ∨
        ∃ s id bytes, plan.statements = [s] ∧ standing false exchanges =
          if (script.replies.headD {}).error = none then [⟨id, .bind bytes, .completed⟩] else []) := by
  obtain ⟨plan, c, opening, lent, sent, planned, lends, exchanges, spoken⟩ := undecodedRan outcome undecoded
  dsimp only
  rw [exchanges, standingOpening lends]
  have uncommitted : (∀ x ∈ sent, x.1 ≠ .simple "COMMIT".toList) →
      ∀ x ∈ opening ++ sent.over c.id, x.message ≠ .simple "COMMIT".toList := by
    intro absent x member
    rcases List.mem_append.mp member with first | during
    · exact lends.uncommanded x first _
    · obtain ⟨y, inside, rfl⟩ := List.mem_map.mp during
      exact absent y inside
  rcases spoken with ⟨several, transaction⟩ | ⟨s, one, alone⟩
  · obtain ⟨run, rfl, plain⟩ := transactionUndecoded transaction
    refine ⟨uncommitted (rolledBackUncommitted plain _), plan, planned,
      .inl ⟨several, standingRolledBack plain _ _, ?_⟩⟩
    rw [overAppend, ← List.append_assoc]
    exact ⟨_, List.getLast?_concat, rfl⟩
  · obtain ⟨bytes, answer, rfl, verdict⟩ := aloneUndecoded alone
    refine ⟨uncommitted ?_, plan, planned, .inr ⟨s, c.id, bytes, one, standingAlone verdict _ _ _⟩⟩
    intro x member
    rcases List.mem_pair.mp member with rfl | rfl
    · exact nofun
    · exact nofun

theorem undecodedInsertRolledBack :
    let opened : Pool := { config := {}, listening := true, reaper := .absent }
    let row : Record := [("name".toList, .null)]
    let q : Query := { table := "users".toList, insert := some [row, row], returning := true }
    let stored : Reply := { params := [.scalar .text] }
    let unread : Reply :=
      { stored with columns := [⟨"place".toList, .other "point".toList 600⟩], rows := [[some [0]]] }
    let exchanges := (step opened (.query q { replies := [stored, unread] })).1.exchanges
    (step opened (.query q { replies := [stored, unread] })).1.outcome =
        .envelope (.failure (.decode "place".toList (.unsupported "point".toList))) ∧
      (∀ x ∈ exchanges, x.message ≠ .simple "COMMIT".toList) ∧ standing false exchanges = [] := by
  intro opened row q stored unread exchanges
  have outcome : (step opened (.query q { replies := [stored, unread] })).1.outcome =
      .envelope (.failure (.decode "place".toList (.unsupported "point".toList))) := by decide +kernel
  obtain ⟨uncommitted, plan, planned, ⟨-, empty, -⟩ | ⟨s, id, bytes, one, -⟩⟩ :=
    undecodedNotCommitted outcome rfl
  · exact ⟨outcome, uncommitted, empty⟩
  · have two : ∃ compiled, q.plan = .ok compiled ∧ compiled.statements.length = 2 := ⟨_, rfl, rfl⟩
    obtain ⟨compiled, same, length⟩ := two
    cases Except.ok.inj (planned.symm.trans same)
    rw [one] at length
    cases length

/-- The same from an insert of one row: the mutation is reported as failed, and has been made. -/
theorem undecodedInsertStands :
    let opened : Pool := { config := {}, listening := true, reaper := .absent }
    let q : Query :=
      { table := "users".toList, insert := some [[("name".toList, .null)]], returning := true }
    let unread : Reply :=
      { params := [.scalar .text], columns := [⟨"place".toList, .other "point".toList 600⟩],
        rows := [[some [0]]] }
    let report := (step opened (.query q { replies := [unread] })).1
    (∃ first, start .wrapped {} true = .ok (first, opened)) ∧
      report.outcome = .envelope (.failure (.decode "place".toList (.unsupported "point".toList))) ∧
      standing false report.exchanges = [⟨0, .bind [none], .completed⟩] := by
  intro opened q unread report
  exact ⟨⟨_, rfl⟩, by decide +kernel, by decide +kernel⟩

end Session
end TableGateway
