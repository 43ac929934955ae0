import TableGateway.Proofs.Accounting
import TableGateway.Proofs.Crowd

/-! The idle reaper. The clones of a handle share a mark, so that one of them starts the reaper and no other
does; a clone that finds no runtime to start it in takes its mark back. In a session it starts at the first
statement that is asked for. What it closes is idle: a held connection is out of its reach. -/
namespace TableGateway

structure Watch where
  owned : Bool
  marked : Bool
  reapers : Nat
  deriving DecidableEq, Repr

inductive Waking
  | asking
  | claiming
  | withdrawing
  | through
  deriving DecidableEq, Repr

namespace Waking

def claims (t : Waking) : Bool := t = .claiming || t = .withdrawing

def left (inside : Bool) : Waking → Nat
  | .asking => if inside then 2 else 3
  | .claiming => if inside then 1 else 2
  | .withdrawing => 1
  | .through => 0

theorem leftNone {inside : Bool} {t : Waking} (none : t.left inside = 0) : t = .through := by
  cases t with
  | through => rfl
  | _ => cases inside with | _ => cases none

end Waking

namespace Watch

def ofMode : Mode → Watch
  | .connected => ⟨true, true, 1⟩
  | .lazily => ⟨true, false, 0⟩
  | .wrapped => ⟨false, false, 0⟩

/-- Setting the mark, starting the reaper and taking the mark back are turns of their own, between which other
clones may take theirs. A reaper can only be started inside a runtime. -/
def turn (w : Watch) (inside : Bool) : Waking → Waking × Watch
  | .asking => if w.owned && !w.marked then (.claiming, { w with marked := true }) else (.through, w)
  | .claiming => if inside then (.through, { w with reapers := w.reapers + 1 }) else (.withdrawing, w)
  | .withdrawing => (.through, { w with marked := false })
  | .through => (.through, w)

def roused (w : Watch) : Watch :=
  if w.owned && !w.marked then { w with marked := true, reapers := w.reapers + 1 } else w

theorem rousedTwice (w : Watch) : w.roused.roused = w.roused := by
  unfold roused
  split
  · simp
  · rfl

theorem rousedAlone (w : Watch) :
    let (first, once) := w.turn true .asking
    once.turn true first = (.through, w.roused) := by
  unfold turn roused
  dsimp only
  cases w.owned && !w.marked with
  | true => rfl
  | false => rfl

end Watch

namespace Watch

variable (inside : Nat → Bool)

def see (i : Nat) (t : Waking) (w : Watch) : Waking × Watch := w.turn (inside i) t

def unseen (mode : Mode) : Crowd Watch Waking := ⟨ofMode mode, fun _ => .asking⟩

inductive Guarded (c : Crowd Watch Waking) : Prop
  | free (unclaimed : ∀ j, (c.turns j).claims = false) (most : c.shared.reapers ≤ 1)
      (none : c.shared.owned = false ∨ c.shared.marked = false → c.shared.reapers = 0)
  | claimed (holder : Nat) (only : ∀ j, (c.turns j).claims = true ↔ j = holder) (owned : c.shared.owned = true)
      (marked : c.shared.marked = true) (none : c.shared.reapers = 0)

inductive Goes (w : Watch) (inside : Bool) : Waking → Waking → Watch → Prop
  | claims (owned : w.owned = true) (unmarked : w.marked = false) :
      Goes w inside .asking .claiming { w with marked := true }
  | passes (settled : w.owned = true → w.marked = true) : Goes w inside .asking .through w
  | starts (runtime : inside = true) : Goes w inside .claiming .through { w with reapers := w.reapers + 1 }
  | fails (runtime : inside = false) : Goes w inside .claiming .withdrawing w
  | withdraws : Goes w inside .withdrawing .through { w with marked := false }
  | rests : Goes w inside .through .through w

theorem turnGoes (w : Watch) (inside : Bool) (t : Waking) :
    w.Goes inside t (w.turn inside t).1 (w.turn inside t).2 := by
  cases t with
  | asking =>
    unfold turn
    dsimp only
    split
    · rename_i due
      rw [Bool.and_eq_true, Bool.not_eq_true'] at due
      exact .claims due.1 due.2
    · rename_i settled
      exact .passes fun owned => by simpa [owned] using settled
  | claiming =>
    cases inside with
    | true => exact .starts rfl
    | false => exact .fails rfl
  | withdrawing => exact .withdraws
  | through => exact .rests

theorem moveGoes (c : Crowd Watch Waking) (i : Nat) : c.shared.Goes (inside i) (c.turns i)
    ((c.move (see inside) i).turns i) (c.move (see inside) i).shared := by
  obtain ⟨mover, shared⟩ := c.moveMover (see inside) i
  rw [mover, shared]
  exact turnGoes c.shared (inside i) (c.turns i)

variable {inside} {c : Crowd Watch Waking}

theorem startGuarded (mode : Mode) : Guarded (unseen mode) := by
  cases mode with
  | connected => exact .free (fun _ => rfl) (Nat.le_refl 1) fun other => other.elim nofun nofun
  | lazily => exact .free (fun _ => rfl) (Nat.zero_le 1) fun _ => rfl
  | wrapped => exact .free (fun _ => rfl) (Nat.zero_le 1) fun _ => rfl

theorem moveGuarded (guarded : Guarded c) (i : Nat) : Guarded (c.move (see inside) i) := by
  have goes := moveGoes inside c i
  have others : ∀ j, j ≠ i → ((c.move (see inside) i).turns j).claims = (c.turns j).claims :=
    fun j other => congrArg Waking.claims (c.moveOther _ other)
  generalize c.move (see inside) i = next at goes others ⊢
  obtain ⟨watch, turns⟩ := next
  dsimp only at goes others
  -- when the mover makes no claim, those who do are the others who did
  have rest : ∀ {j}, (turns i).claims = false → (turns j).claims = true → j ≠ i ∧ (c.turns j).claims = true := by
    intro j idle claims
    have other : j ≠ i := fun same => Bool.eq_false_iff.mp idle (same ▸ claims)
    exact ⟨other, others j other ▸ claims⟩
  have alone : (turns i).claims = true → (∀ j, (c.turns j).claims = true → j = i) →
      ∀ j, (turns j).claims = true ↔ j = i := by
    refine fun claims before j => ⟨fun there => ?_, fun same => same ▸ claims⟩
    by_contra other
    exact other (before j (others j other ▸ there))
  generalize mine : c.turns i = t at goes
  generalize now : turns i = u at goes rest alone
  cases guarded with
  | free unclaimed most none =>
    have idle : t.claims = false := mine ▸ unclaimed i
    have still : u.claims = false → ∀ j, (turns j).claims = false := fun idle j =>
      Bool.eq_false_iff.mpr fun claims => Bool.eq_false_iff.mp (unclaimed j) (rest idle claims).2
    cases goes with
    | claims owned unmarked =>
      have only := alone rfl fun j claims => absurd claims (Bool.eq_false_iff.mp (unclaimed j))
      exact .claimed i only owned rfl (none (.inr unmarked))
    | passes => exact .free (still rfl) most none
    | rests => exact .free (still rfl) most none
    | _ => cases idle
  | claimed holder only owned marked none =>
    by_cases same : i = holder
    · subst same
      have unclaimed : u.claims = false → ∀ j, (turns j).claims = false := fun idle j =>
        Bool.eq_false_iff.mpr fun claims => (rest idle claims).1 ((only j).mp (rest idle claims).2)
      have claimed : t.claims = true := mine ▸ (only i).mpr rfl
      cases goes with
      | starts =>
        refine .free (unclaimed rfl) (Nat.le_of_eq (congrArg (· + 1) none)) fun other => ?_
        rcases other with foreign | unmarked
        · cases owned.symm.trans foreign
        · cases marked.symm.trans unmarked
      | fails => exact .claimed i (alone rfl fun j => (only j).mp) owned marked none
      | withdraws => exact .free (unclaimed rfl) (none ▸ Nat.zero_le 1) fun _ => none
      | _ => cases claimed
    · have unclaimed : t.claims = false := mine ▸ Bool.eq_false_iff.mpr fun claims => same ((only i).mp claims)
      have kept : u.claims = false → ∀ j, (turns j).claims = true ↔ j = holder := by
        refine fun idle j => ⟨fun claims => (only j).mp (rest idle claims).2, fun holds => ?_⟩
        rw [others j fun mover => same (mover.symm.trans holds)]
        exact (only j).mpr holds
      cases goes with
      | claims _ unmarked => cases marked.symm.trans unmarked
      | passes => exact .claimed holder (kept rfl) owned marked none
      | rests => exact .claimed holder (kept rfl) owned marked none
      | _ => cases unclaimed

theorem movesGuarded (mode : Mode) (order : List Nat) : Guarded ((unseen mode).moves (see inside) order) :=
  Crowd.movesKeep _ Guarded (fun _ i guarded => moveGuarded guarded i) (startGuarded mode) order

theorem guardedMost (guarded : Guarded c) : c.shared.reapers ≤ 1 := by
  cases guarded with
  | free _ most => exact most
  | claimed _ _ _ _ none => exact none ▸ Nat.zero_le 1

theorem guardedClaim (guarded : Guarded c) {i : Nat} (claims : (c.turns i).claims = true) :
    c.shared.reapers = 0 := by
  cases guarded with
  | free unclaimed => exact absurd claims (Bool.eq_false_iff.mp (unclaimed i))
  | claimed _ _ _ _ none => exact none

structure Seen (c : Crowd Watch Waking) : Prop where
  guarded : Guarded c
  owned : c.shared.owned = true
  kept : ∀ i, c.turns i ≠ .withdrawing
  marked : ∀ i, c.turns i ≠ .asking → c.shared.marked = true
  started : c.shared.marked = true → c.shared.reapers = 1 ∨ ∃ i, c.turns i = .claiming

theorem moveSeen (runtime : ∀ i, inside i = true) (seen : Seen c) (i : Nat) : Seen (c.move (see inside) i) := by
  have guarded : Guarded (c.move (see inside) i) := moveGuarded seen.guarded i
  have goes := moveGoes inside c i
  have others : ∀ j, j ≠ i → (c.move (see inside) i).turns j = c.turns j := fun j => c.moveOther _
  generalize c.move (see inside) i = next at goes others guarded ⊢
  obtain ⟨watch, turns⟩ := next
  dsimp only at goes others
  have kept : turns i ≠ .withdrawing → ∀ j, turns j ≠ .withdrawing := fun mover j =>
    if same : j = i then same ▸ mover else others j same ▸ seen.kept j
  have waits : c.turns i ≠ .claiming → (∃ j, c.turns j = .claiming) → ∃ j, turns j = .claiming :=
    fun mover ⟨j, claiming⟩ => ⟨j, (others j fun same => mover (same ▸ claiming)).trans claiming⟩
  generalize mine : c.turns i = t at goes waits
  generalize now : turns i = u at goes kept
  cases goes with
  | claims owned => exact ⟨guarded, owned, kept nofun, fun _ _ => rfl, fun _ => .inr ⟨i, now⟩⟩
  | passes settled =>
    have marked := settled seen.owned
    exact ⟨guarded, seen.owned, kept nofun, fun _ _ => marked, fun _ => (seen.started marked).imp_right (waits nofun)⟩
  | starts =>
    have none := guardedClaim seen.guarded (congrArg Waking.claims mine)
    have marked := seen.marked i (mine ▸ nofun)
    exact ⟨guarded, seen.owned, kept nofun, fun _ _ => marked, fun _ => .inl (congrArg (· + 1) none)⟩
  | fails outside => cases (runtime i).symm.trans outside
  | withdraws => exact absurd mine (seen.kept i)
  | rests =>
    have marked := seen.marked i (mine ▸ nofun)
    exact ⟨guarded, seen.owned, kept nofun, fun _ _ => marked, fun _ => (seen.started marked).imp_right (waits nofun)⟩

theorem movesSeen (runtime : ∀ i, inside i = true) (order : List Nat) :
    Seen ((unseen .lazily).moves (see inside) order) :=
  Crowd.movesKeep _ Seen (fun _ i seen => moveSeen runtime seen i)
    ⟨startGuarded .lazily, rfl, nofun, fun _ other => absurd rfl other, nofun⟩ order

theorem goesForeign {w next : Watch} {within : Bool} {t u : Waking} (goes : w.Goes within t u next) :
    next.owned = w.owned := by
  cases goes with
  | _ => rfl

theorem turnNearer (w : Watch) (inside : Bool) (t : Waking) :
    (w.turn inside t).1.left inside ≤ t.left inside - 1 := by
  have goes := w.turnGoes inside t
  generalize w.turn inside t = moved at goes ⊢
  obtain ⟨u, next⟩ := moved
  dsimp only at goes ⊢
  cases goes with
  | claims => cases inside with | _ => exact Nat.le_refl _
  | fails runtime => simp [Waking.left, runtime]
  | _ => exact Nat.zero_le _

theorem movesThrough {i : Nat} (c : Crowd Watch Waking) {more : List Nat}
    (turns : (if inside i then 2 else 3) ≤ more.count i) : (c.moves (see inside) more).turns i = .through := by
  have left := c.movesNear (see inside) (Waking.left (inside i)) (fun t w => w.turnNearer (inside i) t) more
  have most : (c.turns i).left (inside i) ≤ if inside i then 2 else 3 := by
    cases c.turns i with
    | _ => cases inside i with | _ => simp [Waking.left]
  have none : ((c.moves (see inside) more).turns i).left (inside i) = 0 := by omega
  exact Waking.leftNone none

theorem movesAlone {i : Nat} (runtime : inside i = true) (c : Crowd Watch Waking) (first : c.turns i = .asking) :
    (c.moves (see inside) [i, i]).shared = c.shared.roused := by
  have alone := rousedAlone c.shared
  have once := c.moveMover (see inside) i
  have twice := (c.move (see inside) i).moveMover (see inside) i
  unfold see at once twice
  rw [runtime, first] at once
  rw [runtime, once.1, once.2] at twice
  exact twice.2.trans (congrArg Prod.snd alone)

theorem movesForeign (order : List Nat) : ((unseen .wrapped).moves (see inside) order).shared.reapers = 0 := by
  have foreign := Crowd.movesKeep (see inside) (fun c => Guarded c ∧ c.shared.owned = false)
    (fun c i kept => ⟨moveGuarded kept.1 i, (goesForeign (moveGoes inside c i)).trans kept.2⟩)
    ⟨startGuarded .wrapped, rfl⟩ order
  cases foreign.1 with
  | free _ _ none => exact none (.inl foreign.2)
  | claimed _ _ owned => cases owned.symm.trans foreign.2

end Watch

def Event.startsReaper : Event → Bool
  | .poolCreated _ _ _ _ reaper => reaper
  | .reaperStarted => true
  | _ => false

def reapersStarted (events : List Event) : Nat := events.countP Event.startsReaper

def Quiet (events : List Event) : Prop := ∀ e ∈ events, e.startsReaper = false

theorem quietAppend {first second : List Event} (one : Quiet first) (two : Quiet second) : Quiet (first ++ second) :=
  fun e member => (List.mem_append.mp member).elim (one e) (two e)

theorem startsAppend (first second : List Event) :
    reapersStarted (first ++ second) = reapersStarted first + reapersStarted second := List.countP_append

theorem quietOne {event : Event} (quiet : event.startsReaper = false) : Quiet [event] :=
  List.forall_mem_singleton.mpr quiet

theorem quietStarts {events : List Event} (quiet : Quiet events) : reapersStarted events = 0 :=
  List.countP_eq_zero.mpr fun e member => Bool.eq_false_iff.mp (quiet e member)

namespace Pool

def watch (p : Pool) : Watch :=
  match p.reaper with
  | .absent => ⟨false, false, 0⟩
  | .dormant => ⟨true, false, 0⟩
  | .running _ _ => ⟨true, true, 1⟩
  | .ended => ⟨true, true, 1⟩

structure Rests (p next : Pool) (events : List Event) : Prop where
  watch : next.watch = p.watch
  quiet : Quiet events

theorem restsStill (p : Pool) : p.Rests p [] := ⟨rfl, nofun⟩

theorem tickRests (p : Pool) : p.Rests p.tick.1 p.tick.2 := by
  unfold tick
  split
  · rename_i elapsed first running
    have watched : p.watch = ⟨true, true, 1⟩ := by
      unfold watch
      rw [running]
    split
    · exact ⟨watched.symm, quietOne rfl⟩
    · refine ⟨watched.symm, ?_⟩
      dsimp only
      split
      · exact nofun
      · exact quietOne rfl
  · exact p.restsStill

theorem settleRests (p : Pool) : p.Rests p.settle.1 p.settle.2 := by
  unfold settle
  split
  · exact p.tickRests
  · exact p.restsStill

theorem ticksRest (p : Pool) (count : Nat) : p.Rests (p.ticks count).1 (p.ticks count).2 := by
  induction count generalizing p with
  | zero => exact p.restsStill
  | succ count ih =>
    obtain ⟨watch, quiet⟩ := p.tickRests
    obtain ⟨later, more⟩ := ih p.tick.1
    exact ⟨later.trans watch, quietAppend quiet more⟩

theorem advanceRests (p : Pool) (duration : Nat) : p.Rests (p.advance duration).1 (p.advance duration).2 := by
  unfold advance
  split
  · rename_i elapsed first running
    obtain ⟨watch, quiet⟩ := ticksRest { p with reaper := .running (elapsed + duration) first }
      ((elapsed + duration) / p.period - elapsed / p.period)
    refine ⟨watch.trans ?_, quiet⟩
    unfold Pool.watch
    rw [running]
  · exact p.restsStill

theorem wakeWatch (p : Pool) : p.wake.1.watch = p.watch.roused ∧
    reapersStarted p.wake.2 + p.watch.reapers = p.wake.1.watch.reapers := by
  obtain ⟨_, _, reaper, _, _, _, _, _⟩ := p
  cases reaper with
  | _ => exact ⟨rfl, rfl⟩

theorem opensWatch {p next : Pool} {answer : Except BackendFault Connection} {opening : List Exchange}
    (opens : p.Opens answer opening next) : next.watch = p.watch := by
  cases opens with
  | _ => rfl

theorem lendsWatch {p next : Pool} {answer : Except AcquireCause Connection} {opening : List Exchange}
    (lends : p.Lends answer opening next) : next.watch = p.watch := by
  cases lends with
  | opened _ _ opens => exact (opensWatch opens).trans rfl
  | unopened _ opens => exact (opensWatch opens).trans rfl
  | _ => rfl

end Pool

namespace Lease

structure Rests (l m : Lease) : Prop where
  watch : m.pool.watch = l.pool.watch
  quiet : Quiet l.events → Quiet m.events

theorem Rests.refl (l : Lease) : l.Rests l := ⟨rfl, id⟩

theorem Rests.trans {l m n : Lease} (first : l.Rests m) (second : m.Rests n) : l.Rests n :=
  ⟨second.watch.trans first.watch, fun quiet => second.quiet (first.quiet quiet)⟩

theorem emitRests (l : Lease) {event : Event} (quiet : event.startsReaper = false) : l.Rests (l.emit event) :=
  ⟨rfl, fun before => quietAppend before (quietOne quiet)⟩

theorem settleRests (l : Lease) : l.Rests l.settle :=
  ⟨l.pool.settleRests.watch, fun before => quietAppend before l.pool.settleRests.quiet⟩

theorem queryRests (s : Statement) (l : Lease) : l.Rests (l.query s).2 := by
  unfold query
  dsimp only
  split
  · exact ⟨rfl, id⟩
  · exact ⟨l.settleRests.watch, l.settleRests.quiet⟩

theorem answerRests (s : Statement) (l : Lease) : l.Rests (l.answer s).2 := queryRests s l

theorem commandRests (l : Lease) (run : Channel → Except BackendFault Unit × Channel) :
    l.Rests (l.command run).2 := ⟨l.settleRests.watch, l.settleRests.quiet⟩

theorem runRests (plan : Plan) (statements : List Statement) (output : Output) (l : Lease) :
    l.Rests (plan.runFrom client output statements l).2 := by
  induction statements generalizing output l with
  | nil => exact .refl _
  | cons s rest ih =>
    let event := Event.statement plan.action plan.table s.params.length s.sql
    have queried : l.Rests (query s (l.emit event)).2 := (l.emitRests rfl).trans (queryRests s (l.emit event))
    unfold Plan.runFrom
    dsimp only [client]
    generalize query s (l.emit event) = answer at *
    obtain ⟨fault | part, next⟩ := answer
    · exact queried
    · dsimp only
      cases output.append part with
      | none => exact queried
      | some total => exact queried.trans (ih total next)

theorem beginRests (l : Lease) : l.Rests l.begin.2 := by
  have started := l.commandRests Channel.begin
  unfold Lease.begin
  generalize l.command Channel.begin = answer at *
  obtain ⟨fault | done, next⟩ := answer
  · exact started.trans (next.commandRests Channel.rollback)
  · exact started

theorem finishRests (plan : Plan) (result : Except Halt Output) (l : Lease) :
    l.Rests (finish plan result l).2 := by
  unfold finish
  cases result with
  | ok output =>
    have ended := l.commandRests Channel.commit
    dsimp only
    generalize l.command Channel.commit = answer at *
    obtain ⟨fault | done, next⟩ := answer
    · exact ended
    · exact ended
  | error halt =>
    have ended := l.commandRests Channel.rollback
    cases halt with
    | overflow => exact ended
    | fault fault =>
      dsimp only
      generalize l.command Channel.rollback = answer at *
      obtain ⟨failed | done, next⟩ := answer
      · exact ended.trans (next.emitRests rfl)
      · exact ended

theorem executeRests (plan : Plan) (l : Lease) : l.Rests (execute plan l).2 := by
  unfold execute
  split
  · have begun := l.beginRests
    generalize l.begin = answer at *
    obtain ⟨fault | done, next⟩ := answer
    · exact begun
    · have ran := begun.trans (runRests plan plan.statements {} next)
      exact ran.trans (finishRests plan _ _)
  · exact runRests plan plan.statements {} l

end Lease

def Step.asks : Step → Bool
  | .query q _ => q.plan.isOk
  | .raw .. => true
  | _ => false

namespace Session

variable {p : Pool}

theorem connectionRests {α : Type} (p : Pool) (script : Script) {run : Lease → Except Halt α × Lease}
    (rests : ∀ l : Lease, l.Rests (run l).2) :
    p.Rests (withConnection p script run).pool (withConnection p script run).events := by
  have lent := Pool.lendsWatch (p.checkoutLends script)
  unfold withConnection
  generalize p.checkout script = answer at *
  obtain ⟨cause | c, opening, next⟩ := answer
  · exact ⟨lent, nofun⟩
  · have ran := rests ⟨⟨c, script, opening⟩, next, []⟩
    dsimp only
    generalize run ⟨⟨c, script, opening⟩, next, []⟩ = ended at *
    obtain ⟨result, l⟩ := ended
    exact ⟨ran.watch.trans lent, ran.quiet nofun⟩

theorem encloseRests {α : Type} (table : Option Text) (wrap : α → Envelope) {x : Progress (Except Halt α)}
    (rests : p.Rests x.pool x.events) :
    p.Rests (enclose table wrap x).pool (enclose table wrap x).events := by
  unfold enclose
  obtain ⟨fault | _⟩ | a := x.result
  · exact ⟨rests.watch, quietAppend rests.quiet (quietOne rfl)⟩
  · exact rests
  · exact rests

structure Sees (p : Pool) (asks : Bool) (next : Pool) (events : List Event) : Prop where
  watch : next.watch = if asks then p.watch.roused else p.watch
  told : reapersStarted events + p.watch.reapers = next.watch.reapers

theorem restsSees {next : Pool} {events : List Event} (rests : p.Rests next events) : Sees p false next events where
  watch := rests.watch
  told := by rw [quietStarts rests.quiet, rests.watch, Nat.zero_add]

theorem wakeSees {next : Pool} {events : List Event} (rests : p.wake.1.Rests next events) :
    Sees p true next (p.wake.2 ++ events) where
  watch := rests.watch.trans p.wakeWatch.1
  told := by
    rw [startsAppend, quietStarts rests.quiet, Nat.add_zero, p.wakeWatch.2]
    exact congrArg Watch.reapers rests.watch.symm

theorem actSees (p : Pool) (s : Step) : Sees p s.asks (act p s).pool (act p s).events := by
  cases s with
  | query q script =>
    change Sees p q.plan.isOk (runQuery p q script).pool (runQuery p q script).events
    unfold runQuery
    obtain ⟨fault | _⟩ | plan := q.plan
    · exact restsSees ⟨rfl, quietOne rfl⟩
    · exact restsSees p.restsStill
    · dsimp only [runPlan, logged]
      cases plan.statements.isEmpty with
      | true => exact wakeSees p.wake.1.restsStill
      | false =>
        exact wakeSees (encloseRests _ _ (connectionRests _ script (Lease.executeRests plan)))
  | raw statement script =>
    change Sees p true (runRaw p statement script).pool (runRaw p statement script).events
    have ran := encloseRests none Envelope.ofRows (connectionRests p.wake.1 script (Lease.answerRests statement))
    unfold runRaw
    dsimp only [logged]
    rw [List.append_assoc]
    exact wakeSees ⟨ran.watch, quietAppend (quietOne rfl) ran.quiet⟩
  | hold script =>
    have lent := Pool.lendsWatch (holdLends p script).1
    have silent : (hold p script).events = [] := by
      unfold hold
      generalize p.checkout script = answer
      obtain ⟨cause | c, opening, next⟩ := answer
      · rfl
      · rfl
    exact restsSees ⟨lent, silent ▸ nofun⟩
  | close => exact restsSees ⟨rfl, quietOne rfl⟩
  | release =>
    refine restsSees ⟨?_, nofun⟩
    change (release p).watch = p.watch
    unfold release
    split
    · rfl
    · rfl
  | advance duration => exact restsSees (p.advanceRests duration)
  | _ => exact restsSees ⟨rfl, nofun⟩

theorem stepSees (p : Pool) (s : Step) : Sees p s.asks (step p s).2 (step p s).1.events := by
  obtain ⟨watch, told⟩ := actSees p s
  have settled := (act p s).pool.settleRests
  refine ⟨settled.watch.trans watch, ?_⟩
  change reapersStarted ((act p s).events ++ (act p s).pool.settle.2) + _ = (act p s).pool.settle.1.watch.reapers
  rw [startsAppend, quietStarts settled.quiet, settled.watch, Nat.add_zero, told]

theorem runSees (p : Pool) (ss : List Step) :
    Sees p (ss.any Step.asks) (steps p ss).2 ((steps p ss).1.flatMap Report.events) := by
  induction ss generalizing p with
  | nil => exact restsSees p.restsStill
  | cons s rest ih =>
    obtain ⟨watch, told⟩ := stepSees p s
    obtain ⟨later, more⟩ := ih (step p s).2
    refine ⟨later.trans ?_, ?_⟩
    · rw [watch, List.any_cons]
      cases s.asks with
      | false => rfl
      | true =>
        cases rest.any Step.asks with
        | false => rfl
        | true => exact p.watch.rousedTwice
    · change reapersStarted ((step p s).1.events ++ (steps (step p s).2 rest).1.flatMap Report.events) + _ = _
      rw [startsAppend, Nat.add_right_comm, told, Nat.add_comm]
      exact more

theorem startWatch {mode : Mode} {config : Configuration} {listening : Bool} {first : Report}
    (started : start mode config listening = .ok (first, p)) :
    p.watch = .ofMode mode ∧ reapersStarted first.events = p.watch.reapers := by
  unfold start at started
  cases valid : config.validate with
  | error fault =>
    rw [valid] at started
    cases started
  | ok config =>
    rw [valid] at started
    cases started
    cases mode with
    | _ => exact ⟨rfl, rfl⟩

end Session

namespace Pool

variable {p q : Pool}

theorem statusReaped (reaped : p.Reaped q) : q.status = ⟨p.status.maxSize, q.idle.length + p.lent.length,
    q.idle.length - p.pending, p.pending - q.idle.length⟩ := by
  unfold status
  rw [reaped.closed, reaped.config, reaped.lent, reaped.pending]

theorem statusEmptied (reaped : p.Reaped q) (opened : p.closed = false) (empty : q.idle = []) :
    q.status = ⟨p.config.maxSize, p.lent.length, 0, p.pending⟩ := by
  rw [statusReaped reaped, empty]
  unfold status
  rw [opened]
  simp

theorem statusSpared (reaped : p.Reaped q) (same : q.idle = p.idle) : q.status = p.status := by
  rw [statusReaped reaped, same]
  rfl

theorem tickEmpties {elapsed : Nat} {first : Bool} (running : p.reaper = .running elapsed first)
    (opened : p.closed = false) (none : p.config.idleTimeout = 0) : p.tick.1.idle = [] := by
  unfold tick
  rw [running, opened]
  exact List.filter_eq_nil_iff.mpr fun c _ => by simp [fresh, none]

theorem ticksEmpty {elapsed : Nat} {first : Bool} (running : p.reaper = .running elapsed first)
    (opened : p.closed = false) (none : p.config.idleTimeout = 0) {count : Nat} (some : 0 < count) :
    (p.ticks count).1.idle = [] := by
  cases count with
  | zero => cases some
  | succ count =>
    have left := (p.tick.1.ticksReap count).idle
    rw [tickEmpties running opened none] at left
    exact List.sublist_nil.mp left

def Young (p : Pool) : Prop := ∀ c ∈ p.idle, p.now - c.lastUsed < p.config.idleTimeout * 1000

theorem tickSpares (young : p.Young) : p.tick.1.idle = p.idle ∧ p.tick.1.Young := by
  unfold tick
  split
  · split
    · exact ⟨rfl, young⟩
    · have all : p.idle.filter p.fresh = p.idle :=
        List.filter_eq_self.mpr fun c member => decide_eq_true (young c member)
      dsimp only
      rw [all]
      exact ⟨rfl, young⟩
  · exact ⟨rfl, young⟩

theorem settleSpares (young : p.Young) : p.settle.1.idle = p.idle ∧ p.settle.1.Young := by
  unfold settle
  split
  · exact tickSpares young
  · exact ⟨rfl, young⟩

theorem ticksSpare (young : p.Young) (count : Nat) : (p.ticks count).1.idle = p.idle ∧ (p.ticks count).1.Young := by
  induction count generalizing p with
  | zero => exact ⟨rfl, young⟩
  | succ count ih =>
    obtain ⟨same, still⟩ := tickSpares young
    obtain ⟨later, last⟩ := ih still
    exact ⟨later.trans same, last⟩

theorem advanceSpares (young : p.Young) (duration : Nat) :
    (p.advance duration).1.idle = p.idle ∧ (p.advance duration).1.Young := by
  unfold advance
  split
  · rename_i elapsed first running
    exact ticksSpare (p := { p with reaper := .running (elapsed + duration) first }) young _
  · exact ⟨rfl, young⟩

end Pool

namespace Session

variable {p : Pool}

theorem advanceReaped (p : Pool) (duration : Nat) : p.Reaped (step p (.advance duration)).2 :=
  (p.advanceReaps duration).trans (Pool.settleReaps _)

theorem advanceEmpties {elapsed duration : Nat} {first : Bool} (running : p.reaper = .running elapsed first)
    (opened : p.closed = false) (none : p.config.idleTimeout = 0)
    (due : elapsed / p.period < (elapsed + duration) / p.period) : (step p (.advance duration)).2.idle = [] := by
  have emptied : (p.advance duration).1.idle = [] := by
    unfold Pool.advance
    rw [running]
    exact Pool.ticksEmpty (p := { p with reaper := .running (elapsed + duration) first }) rfl opened none (by omega)
  have left := (Pool.settleReaps (p.advance duration).1).idle
  rw [emptied] at left
  exact List.sublist_nil.mp left

theorem advanceKeeps (young : p.Young) (duration : Nat) :
    (step p (.advance duration)).2.status = p.status := by
  obtain ⟨same, still⟩ := Pool.advanceSpares young duration
  exact Pool.statusSpared (advanceReaped p duration) ((Pool.settleSpares still).1.trans same)

variable {mode : Mode} {config : Configuration} {listening : Bool} {first : Report} {opened : Pool}

theorem watchedAfter (started : start mode config listening = .ok (first, opened)) (ss : List Step) :
    (steps opened ss).2.watch =
      if mode = .lazily ∧ ss.any Step.asks = true then .ofMode .connected else .ofMode mode := by
  rw [(runSees opened ss).watch, (startWatch started).1]
  cases ss.any Step.asks with
  | true => cases mode with | _ => rfl
  | false => simp

theorem rousedReapers (mode : Mode) (asked : Bool) :
    let w : Watch := if mode = .lazily ∧ asked = true then .ofMode .connected else .ofMode mode
    w.roused.reapers = (if mode = .lazily ∧ asked = false then 1 else 0) + w.reapers := by
  cases mode with
  | _ => cases asked with | _ => rfl

theorem stepStarts (started : start mode config listening = .ok (first, opened)) (before : List Step) (s : Step) :
    reapersStarted (step (steps opened before).2 s).1.events =
      if mode = .lazily ∧ s.asks = true ∧ before.any Step.asks = false then 1 else 0 := by
  obtain ⟨watch, told⟩ := stepSees (steps opened before).2 s
  rw [watch, watchedAfter started before] at told
  refine Nat.add_right_cancel (told.trans ?_)
  cases s.asks with
  | true => simpa using rousedReapers mode (before.any Step.asks)
  | false => simp

theorem startsCounted (started : start mode config listening = .ok (first, opened)) (ss : List Step) :
    reapersStarted ((first :: (steps opened ss).1).flatMap Report.events) = (steps opened ss).2.watch.reapers := by
  have told := (runSees opened ss).told
  rw [List.flatMap_cons, startsAppend, (startWatch started).2, Nat.add_comm]
  exact told

theorem reaperStartsOnce
    (started : start mode config listening = .ok (first, opened)) (before : List Step) (s : Step) :
    let reports := (steps opened before).1
    let p := (steps opened before).2
    let report := (step p s).1
    (reapersStarted ((first :: reports).flatMap Report.events) ≤ 1 ∧
      (mode = .wrapped → reapersStarted ((first :: reports).flatMap Report.events) = 0) ∧
      reapersStarted first.events = (if mode = .connected then 1 else 0) ∧
      reapersStarted report.events =
        if mode = .lazily ∧ s.asks = true ∧ before.any Step.asks = false then 1 else 0) ∧
    (opened.watch = .ofMode mode ∧ ∀ inside order,
      let c := (Watch.unseen mode).moves (Watch.see inside) order
      c.shared.reapers ≤ 1 ∧ (mode = .wrapped → c.shared.reapers = 0) ∧
      (mode = .lazily → (∀ i, inside i = true) → ∀ i, c.turns i = .through →
        c.shared.reapers = 1 ∨ ∃ j, c.turns j = .claiming) ∧
      (∀ i, inside i = true → c.turns i = .asking →
        (c.moves (Watch.see inside) [i, i]).shared = c.shared.roused) ∧
      ∀ i more, (if inside i then 2 else 3) ≤ more.count i → (c.moves (Watch.see inside) more).turns i = .through) ∧
    (∀ q : Pool, q.tick.1.lent = q.lent ∧ (q.Young → q.tick.1.status = q.status) ∧
      ∀ elapsed fresh, q.reaper = .running elapsed fresh → q.closed = false → q.config.idleTimeout = 0 →
        q.tick.1.status = ⟨q.config.maxSize, q.lent.length, 0, q.pending⟩) ∧
    ∀ duration, s = .advance duration →
      (step p s).2.lent = p.lent ∧ (p.Young → report.status = p.status) ∧
      ∀ elapsed fresh, p.reaper = .running elapsed fresh → p.closed = false → p.config.idleTimeout = 0 →
        elapsed / p.period < (elapsed + duration) / p.period →
        report.status = ⟨p.config.maxSize, held before reports, 0, 0⟩ := by
  intro reports p report
  obtain ⟨watched, told⟩ := startWatch started
  have count : reapersStarted ((first :: reports).flatMap Report.events) = p.watch.reapers :=
    startsCounted started before
  have after : p.watch = _ := watchedAfter started before
  refine ⟨⟨?_, fun wrapped => ?_, ?_, stepStarts started before s⟩,
    ⟨watched, fun inside order => ⟨Watch.guardedMost (Watch.movesGuarded mode order), fun wrapped => ?_,
      fun waiting runtime i arrived => ?_, fun i runtime => Watch.movesAlone runtime _,
      fun i more => Watch.movesThrough _⟩⟩,
    fun q => ⟨q.tickReaps.lent, fun young => Pool.statusSpared q.tickReaps (Pool.tickSpares young).1,
      fun elapsed fresh running unclosed none =>
        Pool.statusEmptied q.tickReaps unclosed (Pool.tickEmpties running unclosed none)⟩, ?_⟩
  · rw [count, after]
    split
    · exact Nat.le_refl 1
    · cases mode with
      | wrapped => exact Nat.zero_le 1
      | connected => exact Nat.le_refl 1
      | lazily => exact Nat.zero_le 1
  · rw [count, after, wrapped]
    rfl
  · rw [told, watched]
    cases mode with
    | _ => rfl
  · subst wrapped
    exact Watch.movesForeign order
  · subst waiting
    have seen := Watch.movesSeen runtime order
    exact seen.started (seen.marked i (arrived ▸ nofun))
  · rintro duration rfl
    obtain ⟨empty, vacant, asking⟩ := startSound started
    have lent : p.lent.length = held before reports := by
      rw [(runBalances empty before).2.2, vacant]
      rfl
    refine ⟨(advanceReaped p duration).lent, fun young => advanceKeeps young duration, ?_⟩
    intro elapsed fresh running unclosed none due
    have resting : p.pending = 0 := (runPending opened before).trans asking
    rw [← lent]
    refine Eq.trans ?_ (congrArg (Status.mk _ _ 0) resting)
    exact Pool.statusEmptied (advanceReaped p duration) unclosed (advanceEmpties running unclosed none due)

theorem rawQueryStartsReaper :
    let opened : Pool := { config := { idleTimeout := 0 }, listening := true, reaper := .dormant }
    let stray : Step := .query ((Query.of "users".toList).calls [.not "id".toList "near".toList .null]) {}
    let raw : Step := .raw ⟨"SELECT 1".toList, []⟩ {}
    let before : List Step := [.hold {}, stray]
    reapersStarted (step (steps opened before).2 raw).1.events = 1 ∧
      (steps opened (before ++ [raw])).2.status = ⟨20, 2, 1, 0⟩ ∧
      (step (steps opened (before ++ [raw])).2 (.advance 1000000)).1.status = ⟨20, 1, 0, 0⟩ := by
  intro opened stray raw before
  have started : Session.start .lazily { idleTimeout := 0 } true = .ok (_, opened) := rfl
  have silent : before.any Step.asks = false := by decide +kernel
  have running : (steps opened (before ++ [raw])).2.reaper = .running 0 false := by decide +kernel
  have status : (steps opened (before ++ [raw])).2.status = ⟨20, 2, 1, 0⟩ := by decide +kernel
  have one : held (before ++ [raw]) (steps opened (before ++ [raw])).1 = 1 := by decide +kernel
  obtain ⟨⟨-, -, -, starts⟩, -⟩ := reaperStartsOnce started before raw
  obtain ⟨-, -, -, ticks⟩ := reaperStartsOnce started (before ++ [raw]) (.advance 1000000)
  obtain ⟨-, -, emptied⟩ := ticks 1000000 rfl
  rw [one] at emptied
  exact ⟨starts.trans (if_pos ⟨rfl, rfl, silent⟩), status,
    emptied 0 false running (by decide +kernel) (by decide +kernel) (by decide +kernel)⟩

end Session
end TableGateway
