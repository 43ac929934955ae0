import TableGateway.Proofs.Checkout
import TableGateway.Proofs.Transaction

/-! What a step does to the pool. It asks for one connection at most, and one that it asked for to run
statements comes back to the queue with all that was sent over it in the exchanges of the step. While it is
lent, only the reaper is at work on the pool. -/
namespace TableGateway
namespace Pool

structure Reaped (p q : Pool) : Prop where
  idle : q.idle.Sublist p.idle
  lent : q.lent = p.lent
  pending : q.pending = p.pending
  created : q.created = p.created
  config : q.config = p.config
  closed : q.closed = p.closed

theorem Reaped.refl (p : Pool) : p.Reaped p := ⟨List.Sublist.refl _, rfl, rfl, rfl, rfl, rfl⟩

theorem Reaped.trans {p q r : Pool} (first : p.Reaped q) (second : q.Reaped r) : p.Reaped r where
  idle := second.idle.trans first.idle
  lent := second.lent.trans first.lent
  pending := second.pending.trans first.pending
  created := second.created.trans first.created
  config := second.config.trans first.config
  closed := second.closed.trans first.closed

theorem tickReaps (p : Pool) : p.Reaped p.tick.1 := by
  unfold tick
  split
  · split
    · exact ⟨List.Sublist.refl _, rfl, rfl, rfl, rfl, rfl⟩
    · exact ⟨List.filter_sublist, rfl, rfl, rfl, rfl, rfl⟩
  · exact .refl p

theorem settleReaps (p : Pool) : p.Reaped p.settle.1 := by
  unfold settle
  split
  · exact p.tickReaps
  · exact .refl p

theorem ticksReap (p : Pool) (count : Nat) : p.Reaped (p.ticks count).1 := by
  induction count generalizing p with
  | zero => exact .refl p
  | succ count ih => exact p.tickReaps.trans (ih p.tick.1)

theorem advanceReaps (p : Pool) (duration : Nat) : p.Reaped (p.advance duration).1 := by
  unfold advance
  split
  · rename_i elapsed first running
    have set : p.Reaped { p with reaper := .running (elapsed + duration) first } :=
      ⟨List.Sublist.refl _, rfl, rfl, rfl, rfl, rfl⟩
    exact set.trans (ticksReap _ _)
  · exact .refl p

theorem wakeReaps (p : Pool) : p.Reaped p.wake.1 := by
  unfold wake
  split
  · exact ⟨List.Sublist.refl _, rfl, rfl, rfl, rfl, rfl⟩
  · exact .refl p

end Pool

namespace Lease

open Transcript

theorem queryReaps (s : Statement) (l : Lease) : l.pool.Reaped (l.query s).2.pool := by
  unfold query
  dsimp only
  split
  · exact .refl _
  · exact l.pool.settleReaps

theorem commandReaps (l : Lease) (run : Channel → Except BackendFault Unit × Channel) :
    l.pool.Reaped (l.command run).2.pool := l.pool.settleReaps

theorem runReaps (plan : Plan) (statements : List Statement) (output : Output) (l : Lease) :
    l.pool.Reaped (plan.runFrom client output statements l).2.pool := by
  induction statements generalizing output l with
  | nil => exact .refl _
  | cons s rest ih =>
    let event := Event.statement plan.action plan.table s.params.length s.sql
    have queried : l.pool.Reaped (query s (l.emit event)).2.pool := queryReaps s (l.emit event)
    unfold Plan.runFrom
    dsimp only [client]
    generalize query s (l.emit event) = answer at *
    obtain ⟨fault | part, next⟩ := answer
    · exact queried
    · dsimp only
      cases output.append part with
      | none => exact queried
      | some total => exact queried.trans (ih total next)

theorem beginReaps (l : Lease) : l.pool.Reaped l.begin.2.pool := by
  have started := l.commandReaps Channel.begin
  unfold Lease.begin
  generalize l.command Channel.begin = answer at *
  obtain ⟨fault | done, next⟩ := answer
  · exact started.trans (next.commandReaps Channel.rollback)
  · exact started

theorem finishReaps (plan : Plan) (result : Except Halt Output) (l : Lease) :
    l.pool.Reaped (finish plan result l).2.pool := by
  unfold finish
  cases result with
  | ok output =>
    have ended := l.commandReaps Channel.commit
    dsimp only
    generalize l.command Channel.commit = answer at *
    obtain ⟨fault | done, next⟩ := answer
    · exact ended
    · exact ended
  | error halt =>
    have ended := l.commandReaps Channel.rollback
    cases halt with
    | overflow => exact ended
    | fault fault =>
      dsimp only
      generalize l.command Channel.rollback = answer at *
      obtain ⟨failed | done, next⟩ := answer
      · exact ended
      · exact ended

theorem executeReaps (plan : Plan) (l : Lease) : l.pool.Reaped (execute plan l).2.pool := by
  unfold execute
  split
  · have begun := l.beginReaps
    generalize l.begin = answer at *
    obtain ⟨fault | done, next⟩ := answer
    · exact begun
    · have ran := begun.trans (runReaps plan plan.statements {} next)
      exact ran.trans (finishReaps plan _ _)
  · exact runReaps plan plan.statements {} l

def Dialogue (plan : Plan) (script : Script) (sent : Sent) : Prop :=
  Plain sent ∨ ∃ result, Transaction plan.statements script sent result

theorem executeSent (plan : Plan) {l : Lease} (alive : l.channel.connection.alive = true) :
    ∃ sent, Dialogue plan l.channel.script sent ∧ l.channel.Sends sent (execute plan l).2.channel := by
  by_cases several : 2 ≤ plan.statements.length
  · obtain ⟨sent, transaction, sends⟩ := executeTranscript several alive
    exact ⟨sent, .inr ⟨_, transaction⟩, sends⟩
  · obtain ⟨sent, run, sends⟩ := executeAlone several l
    exact ⟨sent, .inl (statementsPlain run), sends⟩

theorem querySent (s : Statement) (l : Lease) :
    ∃ sent, Plain sent ∧ l.channel.Sends sent (l.query s).2.channel := by
  rw [(queryChannel l s).2]
  by_cases zero : '\x00' ∈ s.sql
  · rw [Channel.queryUnsendable _ zero]
    exact ⟨[], nofun, l.channel.sendsNothing⟩
  · obtain ⟨sent, attempt, sends, _⟩ := l.channel.queryTranscript zero
    exact ⟨sent, attemptPlain attempt, sends⟩

end Lease

namespace Session

open Transcript

inductive Loan (p : Pool) (allowed : Sent → Prop) :
    Except AcquireCause Connection → List Exchange → Pool → Prop
  | refused {cause : AcquireCause} {opening : List Exchange} {next : Pool}
      (lends : p.Lends (.error cause) opening next) : Loan p allowed (.error cause) opening next
  | repaid {c last : Connection} {opening : List Exchange} {lent next : Pool} {sent : Sent}
      (lends : p.Lends (.ok c) opening lent) (reaped : lent.Reaped next) (spoken : allowed sent)
      (id : last.id = c.id) (alive : last.alive = !sent.lost) :
      Loan p allowed (.ok c) (opening ++ sent.over c.id) (next.giveBack last)

theorem withConnectionLoans {α : Type} (p : Pool) (script : Script) {allowed : Sent → Prop}
    {run : Lease → Except Halt α × Lease} (reaps : ∀ l : Lease, l.pool.Reaped (run l).2.pool)
    (sends : ∀ l : Lease, l.channel.connection.alive = true → l.channel.script = script →
      ∃ sent, allowed sent ∧ l.channel.Sends sent (run l).2.channel) :
    Loan p allowed (p.checkout script).1 (withConnection p script run).exchanges
      (withConnection p script run).pool := by
  have lends := p.checkoutLends script
  unfold withConnection
  generalize p.checkout script = answer at *
  obtain ⟨cause | c, opening, lent⟩ := answer
  · exact .refused lends
  · obtain ⟨sent, spoken, sends⟩ := sends ⟨⟨c, script, opening⟩, lent, []⟩ lends.alive rfl
    have reaped := reaps ⟨⟨c, script, opening⟩, lent, []⟩
    dsimp only
    generalize run ⟨⟨c, script, opening⟩, lent, []⟩ = ran at *
    obtain ⟨result, l⟩ := ran
    rw [sends.exchanges]
    refine .repaid lends reaped spoken sends.id ?_
    rw [sends.alive, lends.alive, Bool.true_and]

theorem enclosePool {α : Type} (table : Option Text) (wrap : α → Envelope) (x : Progress (Except Halt α)) :
    (enclose table wrap x).pool = x.pool ∧ (enclose table wrap x).exchanges = x.exchanges := by
  unfold enclose
  obtain ⟨fault | _⟩ | a := x.result
  · exact ⟨rfl, rfl⟩
  · exact ⟨rfl, rfl⟩
  · exact ⟨rfl, rfl⟩

def handed (p : Pool) : Step → Option Connection
  | .query q script =>
    match q.plan with
    | .ok plan => if plan.statements.isEmpty then none else (p.wake.1.checkout script).1.toOption
    | .error _ => none
  | .raw _ script => (p.wake.1.checkout script).1.toOption
  | .hold script => (p.checkout script).1.toOption
  | _ => none

theorem handedObtained {answer : Except AcquireCause Connection} {c : Connection}
    (some : answer.toOption = some c) : answer = .ok c := by
  cases answer with
  | error cause => cases some
  | ok d => exact congrArg Except.ok (Option.some.inj some)

theorem queryLoans (p : Pool) (q : Query) (script : Script) :
    (handed p (.query q script) = none ∧ (runQuery p q script).exchanges = [] ∧
      p.Reaped (runQuery p q script).pool) ∨
    ∃ plan answer, q.plan = .ok plan ∧ handed p (.query q script) = answer.toOption ∧
      Loan p.wake.1 (Lease.Dialogue plan script) answer (runQuery p q script).exchanges
        (runQuery p q script).pool := by
  unfold runQuery
  dsimp only [handed]
  cases planned : q.plan with
  | error halt =>
    cases halt with
    | fault fault => exact .inl ⟨rfl, rfl, .refl p⟩
    | overflow => exact .inl ⟨rfl, rfl, .refl p⟩
  | ok plan =>
    dsimp only [runPlan, logged]
    cases hollow : plan.statements.isEmpty with
    | true => exact .inl ⟨rfl, rfl, p.wakeReaps⟩
    | false =>
      refine .inr ⟨plan, (p.wake.1.checkout script).1, rfl, rfl, ?_⟩
      rw [if_neg Bool.false_ne_true]
      obtain ⟨pool, exchanges⟩ := enclosePool (some plan.table) (Envelope.ofOutput plan)
        (withConnection p.wake.1 script (Lease.execute plan))
      rw [pool, exchanges]
      refine withConnectionLoans _ script (Lease.executeReaps plan) fun l alive given => ?_
      exact given ▸ Lease.executeSent plan alive

theorem rawLoans (p : Pool) (s : Statement) (script : Script) :
    Loan p.wake.1 Plain (p.wake.1.checkout script).1 (runRaw p s script).exchanges
      (runRaw p s script).pool := by
  unfold runRaw
  dsimp only [logged]
  obtain ⟨pool, exchanges⟩ := enclosePool none Envelope.ofRows
    (withConnection p.wake.1 script (Lease.answer s))
  rw [pool, exchanges]
  exact withConnectionLoans _ script (Lease.queryReaps s) fun l _ _ => Lease.querySent s l

theorem holdLends (p : Pool) (script : Script) :
    p.Lends (p.checkout script).1 (hold p script).exchanges (hold p script).pool ∧
      ((hold p script).result = .done ↔ ∃ c, (p.checkout script).1 = .ok c) := by
  have lends := p.checkoutLends script
  unfold hold
  generalize p.checkout script = answer at *
  obtain ⟨cause | c, opening, next⟩ := answer
  · exact ⟨lends, nofun, nofun⟩
  · exact ⟨lends, fun _ => ⟨c, rfl⟩, fun _ => rfl⟩

end Session
end TableGateway
