import TableGateway.Proofs.Checkout
import TableGateway.Proofs.Transcript

/-! A plan of several statements runs between one START TRANSACTION and one COMMIT or ROLLBACK, and a plan of
one statement runs without. -/
namespace TableGateway
namespace Transcript

def command (sql : String) (refused : Option Text) : Message × Answer :=
  (.simple sql.toList, match refused with
    | none => .acknowledged
    | some code => .refused code)

def starting : Option Text → Message × Answer := command "START TRANSACTION"

def committing : Option Text → Message × Answer := command "COMMIT"

def rollingBack : Option Text → Message × Answer := command "ROLLBACK"

/-- How the server answers to a rollback has no part in the result. -/
inductive Transaction (statements : List Statement) (script : Script) : Sent → Except Halt Output → Prop
  | unbegun {code : Text} (begin : script.begin = some code) :
      Transaction statements script [starting (some code), rollingBack script.rollback]
        (.error (.fault (.query (.server code))))
  | committed {sent : Sent} {output : Output} (begin : script.begin = none)
      (run : Statements {} statements script.replies sent (.ok output)) (commit : script.commit = none) :
      Transaction statements script (starting none :: sent ++ [committing none]) (.ok output)
  | uncommitted {sent : Sent} {output : Output} {code : Text} (begin : script.begin = none)
      (run : Statements {} statements script.replies sent (.ok output)) (commit : script.commit = some code) :
      Transaction statements script (starting none :: sent ++ [committing (some code)])
        (.error (.fault (.query (.server code))))
  | rolledBack {sent : Sent} {halt : Halt} (begin : script.begin = none)
      (run : Statements {} statements script.replies sent (.error halt)) (alive : sent.lost = false) :
      Transaction statements script (starting none :: sent ++ [rollingBack script.rollback]) (.error halt)
  | lost {sent : Sent} {halt : Halt} (begin : script.begin = none)
      (run : Statements {} statements script.replies sent (.error halt)) (dead : sent.lost = true) :
      Transaction statements script (starting none :: sent) (.error halt)

end Transcript

namespace Channel

open Transcript

theorem sendsSimple (c : Channel) (sql : String) (refused : Option Text) :
    c.Sends [command sql refused] (c.simple sql.toList refused).2 := by
  cases refused with
  | none => exact sendsOne c _ _
  | some code => exact sendsOne c _ _

theorem simpleResult (c : Channel) (sql : Text) (refused : Option Text) :
    (c.simple sql refused).1 = match refused with
      | none => .ok ()
      | some code => .error (.server code) := by
  cases refused with
  | none => rfl
  | some code => rfl

end Channel

namespace Lease

open Transcript

theorem queryChannel (l : Lease) (s : Statement) :
    (l.query s).1 = (l.channel.query s).1 ∧ (l.query s).2.channel = (l.channel.query s).2 := by
  have same : (if Channel.unsendable s.sql then l else l.settle).channel = l.channel := by
    split
    · rfl
    · rfl
  unfold query
  dsimp only
  rw [same]
  exact ⟨rfl, rfl⟩

theorem commandRuns (l : Lease) (run : Channel → Except BackendFault Unit × Channel) :
    l.command run = ((run l.channel).1, { l.settle with channel := (run l.channel).2 }) := rfl

theorem runTranscript (plan : Plan) (statements : List Statement) (output : Output) (l : Lease) :
    ∃ sent, Statements output statements l.channel.script.replies sent (plan.runFrom client output statements l).1 ∧
      l.channel.Sends sent (plan.runFrom client output statements l).2.channel := by
  induction statements generalizing output l with
  | nil => exact ⟨[], .done output _, Channel.sendsNothing _⟩
  | cons s rest ih =>
    let event := Event.statement plan.action plan.table s.params.length s.sql
    obtain ⟨answered, channel⟩ := queryChannel (l.emit event) s
    unfold Plan.runFrom
    change (query s (l.emit event)).1 = (l.channel.query s).1 at answered
    change (query s (l.emit event)).2.channel = (l.channel.query s).2 at channel
    dsimp only [client]
    generalize query s (l.emit event) = queried at *
    obtain ⟨answer, next⟩ := queried
    by_cases zero : '\x00' ∈ s.sql
    · rw [Channel.queryUnsendable _ zero] at answered channel
      obtain rfl : answer = _ := answered
      exact ⟨[], .unsendable zero, channel ▸ Channel.sendsNothing _⟩
    · obtain ⟨sent, attempt, sends, replies⟩ := l.channel.queryTranscript zero
      rw [← answered] at attempt
      rw [← channel] at sends replies
      cases answer with
      | error fault => exact ⟨sent, .failed zero attempt, sends⟩
      | ok part =>
        dsimp only
        cases joined : output.append part with
        | none => exact ⟨sent, .overflow zero attempt joined, sends⟩
        | some total =>
          obtain ⟨more, others, further⟩ := ih total next
          rw [replies] at others
          exact ⟨_, .next zero attempt joined others, sends.trans further⟩

theorem beginAccepted {l : Lease} (begin : l.channel.script.begin = none) :
    l.begin.1 = .ok () ∧ l.channel.Sends [starting none] l.begin.2.channel ∧
      l.begin.2.channel.script = l.channel.script := by
  have started : l.command Channel.begin = (.ok (),
      { l.settle with channel := l.channel.send (.simple "START TRANSACTION".toList) .acknowledged }) := by
    unfold Channel.begin Channel.simple
    rw [commandRuns, begin]
  unfold Lease.begin
  rw [started]
  exact ⟨rfl, l.channel.sendsOne _ _, rfl⟩

theorem rollbackAlive {c : Channel} (alive : c.connection.alive = true) :
    c.Sends [rollingBack c.script.rollback] c.rollback.2 := by
  unfold Channel.rollback
  rw [if_pos alive]
  exact c.sendsSimple "ROLLBACK" c.script.rollback

theorem rollbackDead {c : Channel} (dead : c.connection.alive = false) : c.rollback.2 = c := by
  unfold Channel.rollback
  rw [if_neg (Bool.not_eq_true _ ▸ dead)]

theorem beginRefused {l : Lease} {code : Text} (begin : l.channel.script.begin = some code)
    (alive : l.channel.connection.alive = true) :
    l.begin.1 = .error (.query (.server code)) ∧
      l.channel.Sends [starting (some code), rollingBack l.channel.script.rollback] l.begin.2.channel := by
  have started : l.command Channel.begin = (.error (.server code),
      { l.settle with channel := l.channel.send (.simple "START TRANSACTION".toList) (.refused code) }) := by
    unfold Channel.begin Channel.simple
    rw [commandRuns, begin]
  unfold Lease.begin
  rw [started]
  refine ⟨rfl, (l.channel.sendsOne _ _).trans (rollbackAlive ?_)⟩
  rw [Channel.send, alive]
  rfl

theorem finishDone (plan : Plan) (output : Output) (l : Lease) :
    (finish plan (.ok output) l).1 = (match l.channel.script.commit with
      | none => .ok output
      | some code => .error (.fault (.query (.server code)))) ∧
      l.channel.Sends [committing l.channel.script.commit] (finish plan (.ok output) l).2.channel := by
  have sends := l.channel.sendsSimple "COMMIT" l.channel.script.commit
  have result := l.channel.simpleResult "COMMIT".toList l.channel.script.commit
  unfold finish Channel.commit
  simp only [commandRuns]
  generalize l.channel.simple "COMMIT".toList l.channel.script.commit = ended at *
  obtain ⟨outcome, channel⟩ := ended
  cases commit : l.channel.script.commit with
  | none =>
    rw [commit] at result sends
    obtain rfl : outcome = .ok () := result
    exact ⟨rfl, sends⟩
  | some code =>
    rw [commit] at result sends
    obtain rfl : outcome = .error (.server code) := result
    exact ⟨rfl, sends⟩

theorem finishFailed (plan : Plan) (halt : Halt) (l : Lease) :
    (finish plan (.error halt) l).1 = .error halt ∧
      (finish plan (.error halt) l).2.channel = l.channel.rollback.2 := by
  unfold finish
  simp only [commandRuns]
  cases halt with
  | overflow => exact ⟨rfl, rfl⟩
  | fault fault =>
    obtain ⟨failed | done, next⟩ := l.channel.rollback
    · exact ⟨rfl, rfl⟩
    · exact ⟨rfl, rfl⟩

theorem finishTranscript {plan : Plan} {l last : Lease} {sent : Sent} {outcome : Except Halt Output}
    (begin : l.channel.script.begin = none) (alive : l.channel.connection.alive = true)
    (run : Statements {} plan.statements l.channel.script.replies sent outcome)
    (sends : l.channel.Sends (starting none :: sent) last.channel) :
    ∃ whole, Transaction plan.statements l.channel.script whole (finish plan outcome last).1 ∧
      l.channel.Sends whole (finish plan outcome last).2.channel := by
  cases outcome with
  | ok output =>
    obtain ⟨finished, ends⟩ := finishDone plan output last
    rw [sends.commit] at finished ends
    refine ⟨_, ?_, sends.trans ends⟩
    rw [finished]
    cases answer : l.channel.script.commit with
    | none => exact .committed begin run answer
    | some code => exact .uncommitted begin run answer
  | error halt =>
    obtain ⟨finished, ended⟩ := finishFailed plan halt last
    rw [finished, ended]
    have kept : last.channel.connection.alive = !sent.lost := by
      rw [sends.alive, alive]
      rfl
    cases lost : sent.lost with
    | false =>
      have ends := rollbackAlive (kept.trans (congrArg not lost))
      rw [sends.rollback] at ends
      exact ⟨_, .rolledBack begin run lost, sends.trans ends⟩
    | true =>
      rw [rollbackDead (kept.trans (congrArg not lost))]
      exact ⟨_, .lost begin run lost, sends⟩

theorem executeUntransacted {plan : Plan} (few : ¬ 2 ≤ plan.statements.length) (l : Lease) :
    execute plan l = plan.run client l := by
  have plain : plan.needsTransaction = false := decide_eq_false few
  unfold execute
  rw [if_neg (Bool.eq_false_iff.mp plain)]

theorem executeAlone {plan : Plan} (few : ¬ 2 ≤ plan.statements.length) (l : Lease) :
    ∃ sent, Statements {} plan.statements l.channel.script.replies sent (execute plan l).1 ∧
      l.channel.Sends sent (execute plan l).2.channel := by
  rw [executeUntransacted few]
  exact runTranscript plan plan.statements {} l

theorem executeTranscript {plan : Plan} (several : 2 ≤ plan.statements.length) {l : Lease}
    (alive : l.channel.connection.alive = true) :
    ∃ sent, Transaction plan.statements l.channel.script sent (execute plan l).1 ∧
      l.channel.Sends sent (execute plan l).2.channel := by
  have transacted : plan.needsTransaction = true := decide_eq_true several
  unfold execute
  rw [if_pos transacted]
  cases begin : l.channel.script.begin with
  | some code =>
    obtain ⟨result, sends⟩ := beginRefused begin alive
    generalize l.begin = begun at *
    obtain ⟨outcome, next⟩ := begun
    obtain rfl : outcome = _ := result
    exact ⟨_, .unbegun begin, sends⟩
  | none =>
    obtain ⟨result, begins, script⟩ := beginAccepted begin
    generalize l.begin = begun at *
    obtain ⟨outcome, next⟩ := begun
    obtain rfl : outcome = _ := result
    obtain ⟨sent, run, sends⟩ := runTranscript plan plan.statements {} next
    rw [script] at run
    exact finishTranscript begin alive run (begins.trans sends)

end Lease

namespace Transcript

def Uncommanded (sent : Sent) : Prop := ∀ x ∈ sent, ∀ sql, x.1 ≠ .simple sql

def Plain (sent : Sent) : Prop := ∀ x ∈ sent, (∃ sql, x.1 = .prepare sql) ∨ ∃ params, x.1 = .bind params

theorem Plain.uncommanded {sent : Sent} (plain : Plain sent) : Uncommanded sent := by
  intro x member sql command
  rcases plain x member with ⟨prepared, found⟩ | ⟨params, found⟩
  · cases command.symm.trans found
  · cases command.symm.trans found

theorem executionPlain {params : List Value} {reply : Reply} {sent : Sent} {result : Except Fault Output}
    (executed : Execution params reply sent result) : Plain sent := by
  intro x member
  cases executed with
  | miscounted => cases member
  | unfit => cases member
  | lost =>
    rw [List.mem_singleton.mp member]
    exact .inr ⟨_, rfl⟩
  | answered =>
    rw [List.mem_singleton.mp member]
    exact .inr ⟨_, rfl⟩

theorem attemptPlain {s : Statement} {reply : Reply} {sent : Sent} {result : Except Fault Output}
    (attempt : Attempt s reply sent result) : Plain sent := by
  intro x member
  cases attempt with
  | lost =>
    rw [List.mem_singleton.mp member]
    exact .inl ⟨_, rfl⟩
  | refused =>
    rw [List.mem_singleton.mp member]
    exact .inl ⟨_, rfl⟩
  | prepared _ _ executed =>
    rcases List.mem_cons.mp member with rfl | later
    · exact .inl ⟨_, rfl⟩
    · exact executionPlain executed x later

theorem statementsPlain {output : Output} {statements : List Statement} {replies : List Reply} {sent : Sent}
    {result : Except Halt Output} (run : Statements output statements replies sent result) : Plain sent := by
  intro x member
  induction run with
  | done => cases member
  | unsendable => cases member
  | failed _ attempt => exact attemptPlain attempt x member
  | overflow _ attempt => exact attemptPlain attempt x member
  | next _ attempt _ _ ih =>
    rcases List.mem_append.mp member with first | later
    · exact attemptPlain attempt x first
    · exact ih later

theorem statementsUncommanded {output : Output} {statements : List Statement} {replies : List Reply} {sent : Sent}
    {result : Except Halt Output} (run : Statements output statements replies sent result) :
    Uncommanded sent := (statementsPlain run).uncommanded

theorem executionKept {params : List Value} {reply : Reply} {sent : Sent} {part : Output}
    (executed : Execution params reply sent (.ok part)) : sent.lost = false := by
  cases executed with
  | answered _ _ _ verdict collected =>
    cases collected with
    | completed _ accepted =>
      cases verdict with
      | refused error => cases accepted.symm.trans error
      | completed => rfl

theorem attemptKept {s : Statement} {reply : Reply} {sent : Sent} {part : Output}
    (attempt : Attempt s reply sent (.ok part)) : sent.lost = false := by
  cases attempt with
  | prepared _ _ executed =>
    rw [← executionKept executed]
    rfl

theorem lostAppend (sent more : Sent) : Sent.lost (sent ++ more) = (sent.lost || more.lost) :=
  List.any_append

theorem statementsKept {output total : Output} {statements : List Statement} {replies : List Reply} {sent : Sent}
    {result : Except Halt Output} (run : Statements output statements replies sent result)
    (succeeded : result = .ok total) : sent.lost = false := by
  induction run with
  | done => rfl
  | unsendable => cases succeeded
  | failed => cases succeeded
  | overflow => cases succeeded
  | next _ attempt _ _ ih => rw [lostAppend, attemptKept attempt, ih succeeded, Bool.or_false]

def ends (sent : Sent) : Sent :=
  sent.filter fun x => x.1 = .simple "COMMIT".toList ∨ x.1 = .simple "ROLLBACK".toList

theorem uncommandedEnds {sent : Sent} (uncommanded : Uncommanded sent) : ends sent = [] := by
  refine List.filter_eq_nil_iff.mpr fun x member chosen => ?_
  rcases of_decide_eq_true chosen with commit | rollback
  · exact uncommanded x member _ commit
  · exact uncommanded x member _ rollback

theorem commandKept (sql : String) (refused : Option Text) : Sent.lost [command sql refused] = false := by
  cases refused with
  | none => rfl
  | some code => rfl

theorem endsBehind {sent : Sent} (uncommanded : Uncommanded sent) (more : Sent) :
    ends (starting none :: sent ++ more) = ends more := by
  have opening : ends [starting none] = [] := rfl
  have split : starting none :: sent ++ more = [starting none] ++ (sent ++ more) := rfl
  rw [split, ends, List.filter_append, List.filter_append]
  change ends [starting none] ++ (ends sent ++ ends more) = ends more
  rw [opening, uncommandedEnds uncommanded, List.nil_append, List.nil_append]

theorem lostBehind (sent more : Sent) : Sent.lost (starting none :: sent ++ more) = (sent.lost || more.lost) :=
  lostAppend sent more

inductive Ending : Sent → Bool → Except Halt Output → Prop
  | commit (output : Output) : Ending [committing none] false (.ok output)
  | refused (code : Text) : Ending [committing (some code)] false (.error (.fault (.query (.server code))))
  | rollback (refused : Option Text) (halt : Halt) : Ending [rollingBack refused] false (.error halt)
  | lost (halt : Halt) : Ending [] true (.error halt)

theorem transactionEnding {statements : List Statement} {script : Script} {sent : Sent}
    {result : Except Halt Output} (transaction : Transaction statements script sent result) :
    Ending (ends sent) sent.lost result := by
  cases transaction with
  | @unbegun code =>
    have kept : Sent.lost [starting (some code), rollingBack script.rollback] = false :=
      commandKept "ROLLBACK" script.rollback
    rw [kept]
    exact .rollback script.rollback _
  | committed _ run =>
    rw [endsBehind (statementsUncommanded run), lostBehind, statementsKept run rfl]
    exact .commit _
  | uncommitted _ run =>
    rw [endsBehind (statementsUncommanded run), lostBehind, statementsKept run rfl]
    exact .refused _
  | rolledBack _ run alive =>
    have kept : Sent.lost [rollingBack script.rollback] = false := commandKept "ROLLBACK" script.rollback
    rw [endsBehind (statementsUncommanded run), lostBehind, alive, kept]
    exact .rollback script.rollback _
  | lost _ run dead =>
    have none := endsBehind (statementsUncommanded run) []
    have gone := lostBehind _ [] |>.trans (Bool.or_eq_true_iff.mpr (.inl dead))
    rw [List.append_nil] at none gone
    rw [none, gone]
    exact .lost _

theorem transactionEnds {statements : List Statement} {script : Script} {sent : Sent}
    {result : Except Halt Output} (transaction : Transaction statements script sent result) :
    (ends sent).length = if sent.lost then 0 else 1 := by
  have ending := transactionEnding transaction
  generalize ends sent = ended at *
  generalize sent.lost = dead at *
  cases ending with
  | commit => rfl
  | refused => rfl
  | rollback => rfl
  | lost => rfl

theorem commitEnds (sent : Sent) (answer : Answer) :
    (.simple "COMMIT".toList, answer) ∈ ends sent ↔ (.simple "COMMIT".toList, answer) ∈ sent :=
  List.mem_filter.trans (and_iff_left rfl)

theorem transactionCommitted {statements : List Statement} {script : Script} {sent : Sent}
    {result : Except Halt Output} (transaction : Transaction statements script sent result) :
    (∃ output, result = .ok output) ↔ (.simple "COMMIT".toList, .acknowledged) ∈ sent := by
  have ending := transactionEnding transaction
  rw [← commitEnds]
  generalize ends sent = ended at *
  generalize sent.lost = dead at ending
  cases ending with
  | commit output => exact ⟨fun _ => List.mem_singleton.mpr rfl, fun _ => ⟨output, rfl⟩⟩
  | refused code =>
    refine ⟨nofun, fun member => ?_⟩
    cases (Prod.mk.inj (List.mem_singleton.mp member)).2
  | rollback refused halt =>
    refine ⟨nofun, fun member => ?_⟩
    cases (Prod.mk.inj (List.mem_singleton.mp member)).1
  | lost halt => exact ⟨nofun, nofun⟩

theorem transactionCommits {statements : List Statement} {script : Script} {sent : Sent}
    {result : Except Halt Output} (transaction : Transaction statements script sent result) :
    (∃ answer, (.simple "COMMIT".toList, answer) ∈ sent) ↔
      script.begin = none ∧ ∃ run output, Statements {} statements script.replies run (.ok output) := by
  rw [← exists_congr (commitEnds sent)]
  cases transaction with
  | unbegun begin =>
    constructor
    · rintro ⟨answer, member⟩
      cases (Prod.mk.inj (List.mem_singleton.mp member)).1
    · rintro ⟨begun, _⟩
      cases begun.symm.trans begin
  | committed begin run =>
    rw [endsBehind (statementsUncommanded run)]
    exact ⟨fun _ => ⟨begin, _, _, run⟩, fun _ => ⟨_, List.mem_singleton.mpr rfl⟩⟩
  | uncommitted begin run =>
    rw [endsBehind (statementsUncommanded run)]
    exact ⟨fun _ => ⟨begin, _, _, run⟩, fun _ => ⟨_, List.mem_singleton.mpr rfl⟩⟩
  | rolledBack begin run =>
    rw [endsBehind (statementsUncommanded run)]
    constructor
    · rintro ⟨answer, member⟩
      cases (Prod.mk.inj (List.mem_singleton.mp member)).1
    · rintro ⟨_, other, output, passed⟩
      cases (statementsUnique run passed).2
  | lost begin run =>
    have none := endsBehind (statementsUncommanded run) []
    rw [List.append_nil] at none
    rw [none]
    constructor
    · rintro ⟨answer, member⟩
      cases member
    · rintro ⟨_, other, output, passed⟩
      cases (statementsUnique run passed).2

end Transcript

def Outcome.ofResult (plan : Plan) : Except Halt Output → Outcome
  | .ok output => .envelope (.ofOutput plan output)
  | .error (.fault f) => .envelope (.failure f)
  | .error .overflow => .stopped

def Outcome.succeeded : Outcome → Bool
  | .envelope e => e.isOk
  | _ => false

namespace Session

open Transcript

variable {p : Pool} {q : Query} {script : Script} {plan : Plan}

theorem encloseResult (table : Option Text) (x : Progress (Except Halt Output)) :
    (enclose table (.ofOutput plan) x).result = .ofResult plan x.result ∧
      (enclose table (.ofOutput plan) x).exchanges = x.exchanges := by
  unfold enclose
  obtain ⟨fault | _⟩ | output := x.result
  · exact ⟨rfl, rfl⟩
  · exact ⟨rfl, rfl⟩
  · exact ⟨rfl, rfl⟩

theorem stepPlanned (planned : q.plan = .ok plan) (some : plan.statements.isEmpty = false) :
    let x := withConnection p.wake.1 script (Lease.execute plan)
    (step p (.query q script)).1.outcome = .ofResult plan x.result ∧
      (step p (.query q script)).1.exchanges = x.exchanges := by
  intro x
  change (runQuery p q script).result = .ofResult plan x.result ∧ (runQuery p q script).exchanges = x.exchanges
  unfold runQuery
  rw [planned]
  dsimp only [runPlan, logged]
  rw [if_neg (Bool.eq_false_iff.mp some)]
  exact encloseResult _ x

theorem connectedRun {c : Connection} {opening : List Exchange} {lent : Pool}
    (obtained : p.checkout script = (.ok c, opening, lent))
    (run : Lease → Except Halt Output × Lease) :
    (withConnection p script run).result = (run ⟨⟨c, script, opening⟩, lent, []⟩).1 ∧
      (withConnection p script run).exchanges = (run ⟨⟨c, script, opening⟩, lent, []⟩).2.channel.exchanges := by
  unfold withConnection
  rw [obtained]
  exact ⟨rfl, rfl⟩

theorem unconnectedRun {cause : AcquireCause} {opening : List Exchange} {lent : Pool}
    (refused : p.checkout script = (.error cause, opening, lent))
    (run : Lease → Except Halt Output × Lease) : (withConnection p script run).exchanges = opening := by
  unfold withConnection
  rw [refused]

theorem resultSucceeds (plan : Plan) (result : Except Halt Output) :
    (Outcome.ofResult plan result).succeeded = true ↔ ∃ output, result = .ok output := by
  obtain ⟨fault | _⟩ | output := result
  · exact ⟨nofun, nofun⟩
  · exact ⟨nofun, nofun⟩
  · exact ⟨fun _ => ⟨output, rfl⟩, fun _ => rfl⟩

theorem obtainedWoken {c : Connection} {opening : List Exchange} {lent : Pool}
    (obtained : p.checkout script = (.ok c, opening, lent)) :
    ∃ woken, p.wake.1.checkout script = (.ok c, opening, woken) := by
  obtain ⟨answer, exchanges⟩ := p.checkoutWoken script
  rw [obtained] at answer exchanges
  exact ⟨(p.wake.1.checkout script).2.2, Prod.ext answer (Prod.ext exchanges rfl)⟩

theorem oneStatementUncommanded (one : plan.statements.length = 1) (p : Pool) (script : Script) :
    ∀ x ∈ (withConnection p script (Lease.execute plan)).exchanges, ∀ sql, x.message ≠ .simple sql := by
  have plain := (p.checkoutOpens script).2
  have few : ¬ 2 ≤ plan.statements.length := by omega
  cases obtained : p.checkout script with
  | mk answer next =>
    obtain ⟨opening, lent⟩ := next
    rw [obtained] at plain
    cases answer with
    | error cause =>
      rw [unconnectedRun obtained]
      exact plain
    | ok c =>
      obtain ⟨sent, run, sends⟩ := Lease.executeAlone few ⟨⟨c, script, opening⟩, lent, []⟩
      rw [(connectedRun obtained _).2, sends.exchanges]
      intro x member sql
      rcases List.mem_append.mp member with before | during
      · exact plain x before sql
      · obtain ⟨message, original, rfl⟩ := List.mem_map.mp during
        exact statementsUncommanded run message original sql

theorem planRunsInTransaction (planned : q.plan = .ok plan) :
    let report := (step p (.query q script)).1
    (2 ≤ plan.statements.length → ∀ c opening lent, p.checkout script = (.ok c, opening, lent) →
      ∃ sent result, Transaction plan.statements script sent result ∧
        report.exchanges = opening ++ sent.over c.id ∧
        report.outcome = .ofResult plan result ∧
        ((∃ answer, (.simple "COMMIT".toList, answer) ∈ sent) ↔
          script.begin = none ∧ ∃ run output, Statements {} plan.statements script.replies run (.ok output)) ∧
        (report.outcome.succeeded = true ↔ (.simple "COMMIT".toList, .acknowledged) ∈ sent) ∧
        (ends sent).length = if sent.lost then 0 else 1) ∧
    (plan.statements.length = 1 → ∀ x ∈ report.exchanges, ∀ sql, x.message ≠ .simple sql) := by
  intro report
  refine ⟨?_, ?_⟩
  · intro several c opening lent obtained
    have some : plan.statements.isEmpty = false :=
      List.isEmpty_eq_false_iff.mpr (List.length_pos_iff.mp (Nat.lt_of_lt_of_le Nat.zero_lt_two several))
    have alive := (p.checkoutOpens script).1 c (congrArg Prod.fst obtained)
    obtain ⟨woken, opened⟩ := obtainedWoken obtained
    have connected := connectedRun opened (Lease.execute plan)
    obtain ⟨sent, transaction, sends⟩ :=
      Lease.executeTranscript (l := ⟨⟨c, script, opening⟩, woken, []⟩) several alive
    obtain ⟨outcome, exchanges⟩ := stepPlanned planned some
    rw [connected.1] at outcome
    rw [connected.2, sends.exchanges] at exchanges
    refine ⟨sent, _, transaction, exchanges, outcome, transactionCommits transaction, ?_,
      transactionEnds transaction⟩
    rw [outcome]
    exact (resultSucceeds plan _).trans (transactionCommitted transaction)
  · intro one
    have some : plan.statements.isEmpty = false :=
      List.isEmpty_eq_false_iff.mpr (List.length_pos_iff.mp (one ▸ Nat.one_pos))
    rw [(stepPlanned planned some).2]
    exact oneStatementUncommanded one _ script

theorem secondRowRefused :
    let row : Record := [("name".toList, .null)]
    let q : Query := { table := "users".toList, insert := some [row, row] }
    let p : Pool := { config := {}, listening := true, reaper := .absent }
    let refused : Reply := { params := [.scalar .text], error := some (.execute, "23502".toList) }
    let script : Script := { replies := [{ params := [.scalar .text] }, refused] }
    ∃ plan c opening lent sent result, q.plan = .ok plan ∧ 2 ≤ plan.statements.length ∧
      p.checkout script = (.ok c, opening, lent) ∧ Transaction plan.statements script sent result ∧
      (step p (.query q script)).1.exchanges = opening ++ sent.over c.id ∧
      (.simple "COMMIT".toList, .acknowledged) ∉ sent ∧
      (step p (.query q script)).1.outcome = .envelope (.failure (.query (.server "23502".toList))) := by
  intro row q p refused script
  have planned : ∃ plan, q.plan = .ok plan ∧ plan.statements.length = 2 := ⟨_, rfl, rfl⟩
  obtain ⟨plan, planned, two⟩ := planned
  have outcome : (step p (.query q script)).1.outcome =
      .envelope (.failure (.query (.server "23502".toList))) := by decide +kernel
  have obtained : ∃ c opening lent, p.checkout script = (.ok c, opening, lent) := ⟨_, _, _, rfl⟩
  obtain ⟨c, opening, lent, obtained⟩ := obtained
  obtain ⟨sent, result, transaction, exchanges, _, _, committed, _⟩ :=
    (planRunsInTransaction planned).1 (two ▸ Nat.le_refl 2) c opening lent obtained
  refine ⟨plan, c, opening, lent, sent, result, planned, two ▸ Nat.le_refl 2, obtained, transaction, exchanges,
    ?_, outcome⟩
  rw [← committed, outcome]
  exact nofun

/-- Both rows are stored and decoded, and still rolled back: what the server reports is more than 64 bits count. -/
theorem overflowingRowsRolledBack :
    let opened : Pool := { config := {}, listening := true, reaper := .absent }
    let row : Record := [("name".toList, .null)]
    let q : Query := { table := "users".toList, insert := some [row, row] }
    let most : Reply := { params := [.scalar .text], tag := .text "INSERT 0 18446744073709551615".toList }
    let one : Reply := { params := [.scalar .text], tag := .text "INSERT 0 1".toList }
    let report := (step opened (.query q { replies := [most, one] })).1
    (∃ first, start .wrapped {} true = .ok (first, opened)) ∧
      report.exchanges.countP (·.answer = .completed) = 2 ∧
      (∀ x ∈ report.exchanges, x.message ≠ .simple "COMMIT".toList) ∧ report.outcome.succeeded = false := by
  intro opened row q most one report
  exact ⟨⟨_, rfl⟩, by decide +kernel, by decide +kernel, by decide +kernel⟩

end Session
end TableGateway
