import TableGateway.Proofs.Accounting
import TableGateway.Proofs.Misuse

/-! A closed pool stays closed. Nothing is sent any more, and what needs a connection is refused one. Its size
still counts the connections that were held when it was closed, until each has come back. -/
namespace TableGateway
namespace Pool

structure Shut (p : Pool) : Prop where
  closed : p.closed = true
  idle : p.idle = []

theorem shutReaped {p q : Pool} (shut : p.Shut) (reaped : p.Reaped q) : q.Shut where
  closed := reaped.closed.trans shut.closed
  idle := List.sublist_nil.mp (shut.idle ▸ reaped.idle)

theorem shutCheckout {p : Pool} (shut : p.Shut) (script : Script) :
    p.checkout script = (.error .closed, [], p) := by
  have entered : p.enter.closed = true := shut.closed
  unfold checkout
  dsimp only
  rw [if_pos entered]
  rfl

theorem shutStatus {p : Pool} (shut : p.Shut) (resting : p.pending = 0) :
    p.status = ⟨0, p.lent.length, 0, 0⟩ := by
  simp [restingStatus resting, shut.closed, shut.idle]

end Pool

namespace Session

variable {p : Pool}

def withoutPool : Except Halt Plan → Outcome
  | .error (.fault fault) => .envelope (.failure fault)
  | .error .overflow => .stopped
  | .ok plan =>
    if plan.statements.isEmpty then .envelope (.ok (if plan.single then none else some (.many [])) (some 0))
    else .envelope (.failure (.acquire .closed))

theorem shutConnection {α : Type} (shut : p.Shut) (script : Script) (run : Lease → Except Halt α × Lease) :
    withConnection p script run = { result := .error (.fault (.acquire .closed)), pool := p } := by
  unfold withConnection
  rw [Pool.shutCheckout shut]

theorem shutQuery (shut : p.Shut) (q : Query) (script : Script) :
    (runQuery p q script).result = withoutPool q.plan ∧ (runQuery p q script).exchanges = [] ∧
      p.Reaped (runQuery p q script).pool := by
  have woken := p.wakeReaps
  unfold runQuery withoutPool
  obtain ⟨fault | _⟩ | plan := q.plan
  · exact ⟨rfl, rfl, .refl p⟩
  · exact ⟨rfl, rfl, .refl p⟩
  · dsimp only [runPlan, logged]
    rw [shutConnection (Pool.shutReaped shut woken)]
    cases plan.statements.isEmpty with
    | true => exact ⟨congrArg Outcome.envelope (hollowEnvelope plan), rfl, woken⟩
    | false => exact ⟨rfl, rfl, woken⟩

theorem shutRaw (shut : p.Shut) (s : Statement) (script : Script) :
    (runRaw p s script).result = .envelope (.failure (.acquire .closed)) ∧ (runRaw p s script).exchanges = [] ∧
      p.Reaped (runRaw p s script).pool := by
  have woken := p.wakeReaps
  unfold runRaw
  dsimp only
  rw [shutConnection (Pool.shutReaped shut woken)]
  exact ⟨rfl, rfl, woken⟩

theorem shutHold (shut : p.Shut) (script : Script) :
    hold p script = { result := .fault (.acquire .closed), pool := p } := by
  unfold hold
  rw [Pool.shutCheckout shut]

theorem actShut (shut : p.Shut) (s : Step) : (act p s).exchanges = [] ∧ (act p s).pool.Shut := by
  cases s with
  | query q script =>
    obtain ⟨-, nothing, reaped⟩ := shutQuery shut q script
    exact ⟨nothing, Pool.shutReaped shut reaped⟩
  | raw s script =>
    obtain ⟨-, nothing, reaped⟩ := shutRaw shut s script
    exact ⟨nothing, Pool.shutReaped shut reaped⟩
  | hold script =>
    change (hold p script).exchanges = [] ∧ (hold p script).pool.Shut
    rw [shutHold shut]
    exact ⟨rfl, shut⟩
  | close => exact ⟨rfl, rfl, rfl⟩
  | release =>
    change [] = [] ∧ (release p).Shut
    unfold release
    split
    · exact ⟨rfl, shut⟩
    · refine ⟨rfl, shut.closed, ?_⟩
      unfold Pool.giveBack
      dsimp only
      rw [if_pos shut.closed, shut.idle]
  | advance duration => exact ⟨rfl, Pool.shutReaped shut (p.advanceReaps duration)⟩
  | _ => exact ⟨rfl, shut.closed, shut.idle⟩

theorem stepShut (shut : p.Shut) (s : Step) : (step p s).1.exchanges = [] ∧ (step p s).2.Shut := by
  obtain ⟨nothing, still⟩ := actShut shut s
  exact ⟨nothing, Pool.shutReaped still (Pool.settleReaps _)⟩

theorem stepLeaves (sound : p.Sound) (shut : p.Shut) (s : Step) :
    (step p s).2.lent.length = p.lent.length - [s].count .release := by
  rw [(stepBalances sound s).lent]
  cases s with
  | hold script =>
    change heldAfter p.lent.length (.hold script) (hold p script).result = _
    rw [shutHold shut]
    rfl
  | _ => rfl

theorem runShut (sound : p.Sound) (shut : p.Shut) (ss : List Step) :
    (steps p ss).2.Sound ∧ (steps p ss).2.Shut ∧
      (steps p ss).2.lent.length = p.lent.length - ss.count .release := by
  induction ss generalizing p with
  | nil => exact ⟨sound, shut, rfl⟩
  | cons s rest ih =>
    obtain ⟨kept, still, left⟩ := ih (stepBalances sound s).sound (stepShut shut s).2
    refine ⟨kept, still, left.trans ?_⟩
    rw [stepLeaves sound shut, List.count_cons, List.count_cons, List.count_nil]
    omega

variable {mode : Mode} {config : Configuration} {listening : Bool} {first : Report} {opened : Pool}

theorem runClosed (started : start mode config listening = .ok (first, opened)) (before after : List Step) :
    let p := (steps opened (before ++ .close :: after)).2
    p.Sound ∧ p.Shut ∧ p.pending = 0 ∧
      p.lent.length = held before (steps opened before).1 - after.count .release := by
  intro p
  obtain ⟨empty, none, asking⟩ := startSound started
  obtain ⟨sound, -, count⟩ := runBalances empty before
  rw [none] at count
  have closing := stepBalances sound .close
  have shut : (step (steps opened before).2 .close).2.Shut :=
    Pool.shutReaped ⟨rfl, rfl⟩ (Pool.settleReaps (steps opened before).2.close)
  have resting := (runPending opened (before ++ .close :: after)).trans asking
  unfold p
  rw [stepsAppend] at resting ⊢
  obtain ⟨kept, still, left⟩ := runShut closing.sound shut after
  refine ⟨kept, still, resting, left.trans ?_⟩
  rw [closing.lent]
  exact congrArg (· - after.count .release) count

theorem closedPoolSendsNothing (started : start mode config listening = .ok (first, opened))
    (before after : List Step) :
    let lent := held before (steps opened before).1
    let p := (steps opened (before ++ .close :: after)).2
    p.status = ⟨0, lent - after.count .release, 0, 0⟩ ∧ ∀ s,
      let report := (step p s).1
      report.exchanges = [] ∧ report.status = ⟨0, lent - (after ++ [s]).count .release, 0, 0⟩ ∧
      (∀ statement script, s = .raw statement script →
        report.outcome = .envelope (.failure (.acquire .closed))) ∧
      ∀ q script, s = .query q script → report.outcome = withoutPool q.plan := by
  intro lent p
  obtain ⟨sound, shut, resting, left⟩ := runClosed started before after
  refine ⟨?_, fun s => ⟨(stepShut shut s).1, ?_, ?_, ?_⟩⟩
  · rw [Pool.shutStatus shut resting, left]
  · change (step p s).2.status = _
    have still := (runPending p [s]).trans resting
    rw [Pool.shutStatus (stepShut shut s).2 still, stepLeaves sound shut, left, List.count_append, Nat.sub_sub]
  · rintro statement script rfl
    exact (shutRaw shut statement script).1
  · rintro q script rfl
    exact (shutQuery shut q script).1

theorem heldPoolSendsNothing :
    let opened : Pool := { config := {}, listening := true, reaper := .dormant }
    let before : List Step := [.hold {}, .hold {}]
    let after : List Step := [.advance 60000000, .release]
    let raw : Step := .raw ⟨"SELECT 1".toList, []⟩ {}
    (steps opened (before ++ .close :: after)).2.status = ⟨0, 1, 0, 0⟩ ∧
      (step (steps opened (before ++ .close :: after)).2 raw).1.exchanges = [] ∧
      (step (steps opened (before ++ .close :: after)).2 raw).1.outcome =
        .envelope (.failure (.acquire .closed)) := by
  intro opened before after raw
  have started : Session.start .lazily {} true = .ok (_, opened) := rfl
  have one : held before (steps opened before).1 - after.count .release = 1 := by decide +kernel
  obtain ⟨status, later⟩ := closedPoolSendsNothing started before after
  obtain ⟨nothing, -, refused, -⟩ := later raw
  rw [one] at status
  exact ⟨status, nothing, refused _ _ rfl⟩

theorem closedPoolCountsHeld :
    let opened : Pool := { config := {}, listening := true, reaper := .dormant }
    Session.start .lazily {} true = .ok (⟨.done, [], opened.status, createdEvents {} .lazily⟩, opened) ∧
      (steps opened [.hold {}, .close]).2.status = ⟨0, 1, 0, 0⟩ ∧
      (steps opened [.hold {}, .close]).2.status ≠ ⟨0, 0, 0, 0⟩ := by
  intro opened
  exact ⟨rfl, by decide, by decide⟩

end Session
end TableGateway
