import TableGateway.Proofs.Borrowing
import Mathlib.Data.List.Nodup
import Mathlib.Data.List.Perm.Subperm

/-! Every connection that is open is idle or lent, once and under a number of its own, and no more are open than
the pool may hold. After a step those lent are the ones that are held: what ran statements came back. -/
namespace TableGateway
namespace Pool

def ids (p : Pool) : List Nat := (p.idle ++ p.lent).map Connection.id

structure Sound (p : Pool) : Prop where
  distinct : p.ids.Nodup
  numbered : ∀ i ∈ p.ids, i < p.created
  bounded : p.ids.length ≤ p.config.maxSize

theorem idsLength (p : Pool) : p.ids.length = p.idle.length + p.lent.length := by simp [ids]

theorem Sound.within {p q : Pool} (sound : p.Sound) (ids : q.ids.Subperm p.ids) (created : p.created ≤ q.created)
    (config : q.config = p.config) : q.Sound where
  distinct := by
    obtain ⟨l, same, sub⟩ := ids
    exact same.nodup_iff.mp (sound.distinct.sublist sub)
  numbered i member := Nat.lt_of_lt_of_le (sound.numbered i (ids.subset member)) created
  bounded := config ▸ Nat.le_trans ids.length_le sound.bounded

theorem soundReaped {p q : Pool} (sound : p.Sound) (reaped : p.Reaped q) : q.Sound := by
  refine sound.within (List.Sublist.subperm (List.Sublist.map _ ?_)) (Nat.le_of_eq reaped.created.symm) reaped.config
  rw [reaped.lent]
  exact reaped.idle.append_right p.lent

theorem idsLend (p : Pool) (c : Connection) : (p.lend c).ids.Perm (c.id :: p.ids) := by
  unfold ids lend
  rw [List.map_append, List.map_append]
  exact List.perm_middle

theorem soundOpened {p next : Pool} {answer : Except BackendFault Connection} {opening : List Exchange}
    (sound : p.Sound) (opens : { p.enter with idle := [] }.Opens answer opening next) :
    next.Sound ∧ next.lent = p.lent ∧ next.config = p.config ∧ next.idle = [] ∧
      ∀ c, answer = .ok c → c.id ∉ next.ids ∧ c.id < next.created := by
  have emptied : Sound { p.enter with idle := [] } :=
    sound.within (List.Sublist.subperm (List.Sublist.map _ (List.sublist_append_right _ _))) (Nat.le_refl _) rfl
  cases opens with
  | unsent => exact ⟨emptied, rfl, rfl, rfl, nofun⟩
  | refused => exact ⟨emptied.within (List.Subperm.refl _) (Nat.le_succ _) rfl, rfl, rfl, rfl, nofun⟩
  | accepted =>
    refine ⟨emptied.within (List.Subperm.refl _) (Nat.le_succ _) rfl, rfl, rfl, rfl, fun c opened => ?_⟩
    cases opened
    exact ⟨fun member => Nat.lt_irrefl _ (emptied.numbered _ member), Nat.lt_succ_self _⟩

theorem soundLend {p : Pool} {c : Connection} (sound : p.Sound) (other : c.id ∉ p.ids) (number : c.id < p.created)
    (room : p.ids.length < p.config.maxSize) : (p.lend c).Sound where
  distinct := (p.idsLend c).nodup_iff.mpr (List.nodup_cons.mpr ⟨other, sound.distinct⟩)
  numbered i member := by
    rcases List.mem_cons.mp ((p.idsLend c).mem_iff.mp member) with rfl | before
    · exact number
    · exact sound.numbered i before
  bounded := Nat.le_trans (Nat.le_of_eq (p.idsLend c).length_eq) room

theorem soundLends {p next : Pool} {answer : Except AcquireCause Connection} {opening : List Exchange}
    (sound : p.Sound) (lends : p.Lends answer opening next) : next.Sound ∧ next.config = p.config := by
  cases lends with
  | closed => exact ⟨sound, rfl⟩
  | exhausted => exact ⟨sound, rfl⟩
  | @reused dropped rest c opened room queue alive =>
    -- lending the first of the queue moves its number, so what is left is within what was there
    refine ⟨sound.within ?_ (Nat.le_refl _) rfl, rfl⟩
    refine (idsLend { p with idle := rest } { c with lastUsed := p.now }).subperm.trans (List.Sublist.subperm ?_)
    unfold ids
    rw [queue]
    exact List.Sublist.map Connection.id ((List.sublist_append_right dropped (c :: rest)).append_right p.lent)
  | opened opened room opens =>
    obtain ⟨kept, lent, config, idle, fresh⟩ := soundOpened sound opens
    obtain ⟨other, number⟩ := fresh _ rfl
    refine ⟨soundLend kept other number ?_, config⟩
    rw [idsLength, idle, lent, config]
    simpa using room
  | unopened opened opens =>
    obtain ⟨kept, -, config, -⟩ := soundOpened sound opens
    exact ⟨kept.within (List.Subperm.refl _) (Nat.le_refl _) rfl, config⟩

theorem soundGiveBack {p : Pool} {c last : Connection} {rest : List Connection} (sound : p.Sound)
    (lent : p.lent = c :: rest) (same : last.id = c.id) :
    (p.giveBack last).Sound ∧ (p.giveBack last).lent = rest := by
  have distinct := sound.distinct
  unfold ids at distinct
  rw [lent, List.map_append, List.map_cons] at distinct
  have absent : c.id ∉ rest.map Connection.id := (List.nodup_cons.mp (List.nodup_append.mp distinct).2.1).1
  have left : (p.giveBack last).lent = rest := by
    unfold giveBack
    dsimp only
    rw [lent, same, List.filter_cons_of_neg (by simp), List.filter_eq_self]
    intro other member
    exact decide_eq_true fun equal => absent (List.mem_map.mpr ⟨other, member, equal⟩)
  refine ⟨sound.within ?_ (Nat.le_refl _) rfl, left⟩
  unfold ids
  rw [left, lent]
  unfold giveBack
  dsimp only
  split
  · exact List.Sublist.subperm (List.Sublist.map _ ((List.sublist_cons_self c rest).append_left p.idle))
  · simpa [same] using List.Subperm.refl _

theorem restingStatus {p : Pool} (resting : p.pending = 0) : p.status =
    ⟨if p.closed then 0 else p.config.maxSize, p.idle.length + p.lent.length, p.idle.length, 0⟩ := by
  unfold status
  rw [resting, Nat.zero_sub, Nat.sub_zero]

end Pool

def Message.opens : Message → Bool
  | .connect .. => true
  | _ => false

theorem Pool.opensOne {p next : Pool} {answer : Except AcquireCause Connection} {opening : List Exchange}
    (lends : p.Lends answer opening next) : opening.countP (·.message.opens) ≤ 1 := by
  rcases lends.opening with rfl | ⟨user, database, password, answer, rfl, -⟩
  · exact Nat.zero_le 1
  · exact List.countP_le_length

namespace Transcript

theorem plainOpensNone {sent : Sent} (plain : Plain sent) : ∀ x ∈ sent, x.1.opens = false := by
  intro x member
  rcases plain x member with ⟨sql, prepared⟩ | ⟨params, bound⟩
  · rw [prepared]
    rfl
  · rw [bound]
    rfl

theorem behindOpensNone {sent : Sent} (plain : Plain sent) (sql : String) (refused : Option Text) :
    ∀ x ∈ starting none :: sent ++ [command sql refused], x.1.opens = false := by
  intro x member
  rcases List.mem_cons.mp member with rfl | later
  · rfl
  · rcases List.mem_append.mp later with during | last
    · exact plainOpensNone plain x during
    · rw [List.mem_singleton.mp last]
      rfl

theorem transactionOpensNone {statements : List Statement} {script : Script} {sent : Sent}
    {result : Except Halt Output} (transaction : Transaction statements script sent result) :
    ∀ x ∈ sent, x.1.opens = false := by
  cases transaction with
  | unbegun => simp [starting, rollingBack, command, Message.opens]
  | committed _ run => exact behindOpensNone (statementsPlain run) "COMMIT" none
  | uncommitted _ run => exact behindOpensNone (statementsPlain run) "COMMIT" (some _)
  | rolledBack _ run => exact behindOpensNone (statementsPlain run) "ROLLBACK" script.rollback
  | lost _ run => exact List.forall_mem_cons.mpr ⟨rfl, plainOpensNone (statementsPlain run)⟩

end Transcript

def Step.runs : Step → Bool
  | .query .. => true
  | .raw .. => true
  | _ => false

namespace Session

open Transcript

def heldAfter (n : Nat) : Step → Outcome → Nat
  | .hold _, .done => n + 1
  | .release, _ => n - 1
  | _, _ => n

def heldFrom (n : Nat) (ss : List Step) (reports : List Report) : Nat :=
  (ss.zip reports).foldl (fun n x => heldAfter n x.1 x.2.outcome) n

def held (ss : List Step) (reports : List Report) : Nat := heldFrom 0 ss reports

variable {p : Pool}

theorem soundLoan {next : Pool} {allowed : Sent → Prop} {answer : Except AcquireCause Connection}
    {exchanges : List Exchange} (sound : p.Sound) (loan : Loan p allowed answer exchanges next) :
    next.Sound ∧ next.lent = p.lent ∧ next.config = p.config ∧
      ∀ c, answer = .ok c → c.id ∈ next.idle.map Connection.id := by
  cases loan with
  | refused lends =>
    obtain ⟨kept, config⟩ := Pool.soundLends sound lends
    exact ⟨kept, lends.kept, config, nofun⟩
  | @repaid c last _ lent next _ lends reaped _ id _ =>
    obtain ⟨kept, config⟩ := Pool.soundLends sound lends
    obtain ⟨out, opened⟩ := lends.lent
    obtain ⟨back, left⟩ := Pool.soundGiveBack (Pool.soundReaped kept reaped) (reaped.lent.trans out) id
    refine ⟨back, left, reaped.config.trans config, fun _ same => ?_⟩
    cases same
    -- the pool was open when it lent, and a reaper does not close it: what comes back is queued, even if it is dead
    have queue : (next.giveBack last).idle = next.idle ++ [last] := by
      unfold Pool.giveBack
      rw [reaped.closed, opened]
      rfl
    rw [queue, ← id]
    exact List.mem_map_of_mem (List.mem_append_right _ (List.mem_singleton_self last))

theorem actReturns (sound : p.Sound) {s : Step} (runs : s.runs = true) :
    let next := (act p s).pool
    next.Sound ∧ next.lent = p.lent ∧ next.config = p.config ∧
      ∀ c, handed p s = some c → c.id ∈ next.idle.map Connection.id := by
  have woken := p.wakeReaps
  have awake := Pool.soundReaped sound woken
  cases s with
  | query q script =>
    change Pool.Sound (runQuery p q script).pool ∧ (runQuery p q script).pool.lent = _ ∧
      (runQuery p q script).pool.config = _ ∧ ∀ c, _ → _ ∈ (runQuery p q script).pool.idle.map _
    rcases queryLoans p q script with ⟨none, -, reaped⟩ | ⟨plan, answer, -, asked, loan⟩
    · refine ⟨Pool.soundReaped sound reaped, reaped.lent, reaped.config, fun c some => ?_⟩
      cases none.symm.trans some
    · obtain ⟨kept, lent, config, back⟩ := soundLoan awake loan
      exact ⟨kept, lent.trans woken.lent, config.trans woken.config,
        fun c some => back c (handedObtained (asked.symm.trans some))⟩
  | raw s script =>
    change Pool.Sound (runRaw p s script).pool ∧ (runRaw p s script).pool.lent = _ ∧
      (runRaw p s script).pool.config = _ ∧ ∀ c, _ → _ ∈ (runRaw p s script).pool.idle.map _
    obtain ⟨kept, lent, config, back⟩ := soundLoan awake (rawLoans p s script)
    exact ⟨kept, lent.trans woken.lent, config.trans woken.config,
      fun c some => back c (handedObtained some)⟩
  | _ => cases runs

structure Balances (p : Pool) (s : Step) (outcome : Outcome) (next : Pool) : Prop where
  sound : next.Sound
  config : next.config = p.config
  lent : next.lent.length = heldAfter p.lent.length s outcome

theorem balancesReaped {s : Step} {outcome : Outcome} {next last : Pool}
    (balances : Balances p s outcome next) (reaped : next.Reaped last) : Balances p s outcome last where
  sound := Pool.soundReaped balances.sound reaped
  config := reaped.config.trans balances.config
  lent := (congrArg List.length reaped.lent).trans balances.lent

theorem holdBalances (sound : p.Sound) (script : Script) :
    Balances p (.hold script) (hold p script).result (hold p script).pool := by
  obtain ⟨lends, done⟩ := holdLends p script
  obtain ⟨kept, config⟩ := Pool.soundLends sound lends
  refine ⟨kept, config, ?_⟩
  generalize (p.checkout script).1 = answer at *
  cases answer with
  | ok c =>
    rw [done.mpr ⟨c, rfl⟩, lends.lent.1]
    rfl
  | error cause =>
    rw [lends.kept]
    unfold heldAfter
    split
    · rename_i held
      obtain ⟨c, other⟩ := done.mp held
      cases other
    · rename_i other
      cases other
    · rfl

theorem releaseBalances (sound : p.Sound) : Balances p .release .done (release p) := by
  unfold release
  split
  · rename_i none
    exact ⟨sound, rfl, by simp [none, heldAfter]⟩
  · rename_i c rest lent
    obtain ⟨kept, left⟩ := Pool.soundGiveBack sound lent rfl
    exact ⟨kept, rfl, by simp [left, lent, heldAfter]⟩

theorem actBalances (sound : p.Sound) (s : Step) : Balances p s (act p s).result (act p s).pool := by
  have same : ∀ s outcome, heldAfter p.lent.length s outcome = p.lent.length → Balances p s outcome p :=
    fun s outcome unmoved => ⟨sound, rfl, unmoved.symm⟩
  cases s with
  | query q script =>
    obtain ⟨kept, lent, config, -⟩ := actReturns sound (s := .query q script) rfl
    exact ⟨kept, config, congrArg List.length lent⟩
  | raw s script =>
    obtain ⟨kept, lent, config, -⟩ := actReturns sound (s := .raw s script) rfl
    exact ⟨kept, config, congrArg List.length lent⟩
  | status => exact same .status .done rfl
  | describe => exact same .describe _ rfl
  | close =>
    have emptied : p.close.Sound :=
      sound.within (List.Sublist.subperm (List.Sublist.map _ (List.sublist_append_right _ _)))
        (Nat.le_refl _) rfl
    exact ⟨emptied, rfl, rfl⟩
  | hold script => exact holdBalances sound script
  | release => exact releaseBalances sound
  | advance duration => exact balancesReaped (same (.advance duration) .done rfl) (p.advanceReaps duration)
  | elapse duration =>
    have aged : p.Reaped { p with now := p.now + duration } := ⟨List.Sublist.refl _, rfl, rfl, rfl, rfl, rfl⟩
    exact balancesReaped (same (.elapse duration) .done rfl) aged

theorem stepBalances (sound : p.Sound) (s : Step) : Balances p s (step p s).1.outcome (step p s).2 :=
  balancesReaped (actBalances sound s) (Pool.settleReaps _)

theorem runBalances (sound : p.Sound) (ss : List Step) :
    (steps p ss).2.Sound ∧ (steps p ss).2.config = p.config ∧
      (steps p ss).2.lent.length = heldFrom p.lent.length ss (steps p ss).1 := by
  induction ss generalizing p with
  | nil => exact ⟨sound, rfl, rfl⟩
  | cons s rest ih =>
    obtain ⟨kept, config, lent⟩ := stepBalances sound s
    obtain ⟨last, unchanged, count⟩ := ih kept
    refine ⟨last, unchanged.trans config, count.trans ?_⟩
    rw [lent]
    rfl

theorem loanPending {next : Pool} {allowed : Sent → Prop} {answer : Except AcquireCause Connection}
    {exchanges : List Exchange} (loan : Loan p allowed answer exchanges next) : next.pending = p.pending := by
  cases loan with
  | refused lends => exact lends.pending
  | repaid lends reaped => exact reaped.pending.trans lends.pending

theorem actPending (p : Pool) (s : Step) : (act p s).pool.pending = p.pending := by
  have woken := p.wakeReaps.pending
  cases s with
  | query q script =>
    change (runQuery p q script).pool.pending = _
    rcases queryLoans p q script with ⟨-, -, reaped⟩ | ⟨plan, answer, -, -, loan⟩
    · exact reaped.pending
    · exact (loanPending loan).trans woken
  | raw s script => exact (loanPending (rawLoans p s script)).trans woken
  | hold script => exact (holdLends p script).1.pending
  | release =>
    change (release p).pending = _
    unfold release
    split
    · rfl
    · rfl
  | advance duration => exact (p.advanceReaps duration).pending
  | _ => rfl

theorem runPending (p : Pool) (ss : List Step) : (steps p ss).2.pending = p.pending := by
  induction ss generalizing p with
  | nil => rfl
  | cons s rest ih => exact (ih (step p s).2).trans ((Pool.settleReaps _).pending.trans (actPending p s))

theorem startSound {mode : Mode} {config : Configuration} {listening : Bool} {first : Report}
    (started : start mode config listening = .ok (first, p)) : p.Sound ∧ p.lent = [] ∧ p.pending = 0 := by
  unfold start at started
  cases valid : config.validate with
  | error fault =>
    rw [valid] at started
    cases started
  | ok config =>
    rw [valid] at started
    cases started
    exact ⟨⟨List.nodup_nil, nofun, Nat.zero_le _⟩, rfl, rfl⟩

theorem stepsAppend (p : Pool) (ss more : List Step) : steps p (ss ++ more) =
    ((steps p ss).1 ++ (steps (steps p ss).2 more).1, (steps (steps p ss).2 more).2) := by
  induction ss generalizing p with
  | nil => rfl
  | cons s rest ih => simp only [List.cons_append, steps, ih]

theorem loanOpensOne {next : Pool} {allowed : Sent → Prop} {answer : Except AcquireCause Connection}
    {exchanges : List Exchange} (quiet : ∀ sent, allowed sent → ∀ x ∈ sent, x.1.opens = false)
    (loan : Loan p allowed answer exchanges next) : exchanges.countP (·.message.opens) ≤ 1 := by
  cases loan with
  | refused lends => exact Pool.opensOne lends
  | @repaid c _ opening _ _ sent lends _ spoken =>
    have none : (sent.over c.id).countP (·.message.opens) = 0 := by
      refine List.countP_eq_zero.mpr fun x member => ?_
      obtain ⟨original, found, rfl⟩ := List.mem_map.mp member
      exact Bool.eq_false_iff.mp (quiet sent spoken original found)
    rw [List.countP_append, none]
    exact Pool.opensOne lends

theorem actOpensOne (p : Pool) (s : Step) : (act p s).exchanges.countP (·.message.opens) ≤ 1 := by
  cases s with
  | query q script =>
    change (runQuery p q script).exchanges.countP _ ≤ 1
    rcases queryLoans p q script with ⟨-, nothing, -⟩ | ⟨plan, answer, -, -, loan⟩
    · rw [nothing]
      exact Nat.zero_le 1
    · refine loanOpensOne (fun sent spoken => ?_) loan
      rcases spoken with plain | ⟨result, transaction⟩
      · exact plainOpensNone plain
      · exact transactionOpensNone transaction
  | raw s script => exact loanOpensOne (fun _ => plainOpensNone) (rawLoans p s script)
  | hold script => exact Pool.opensOne (holdLends p script).1
  | _ => exact Nat.zero_le 1

theorem connectionsAccounted {mode : Mode} {config : Configuration} {listening : Bool} {first : Report}
    {opened : Pool} (started : start mode config listening = .ok (first, opened)) (before : List Step) (s : Step) :
    let reports := (steps opened before).1
    let p := (steps opened before).2
    let report := (step p s).1
    let next := (step p s).2
    (next.closed = false →
      report.status.maxSize = opened.config.maxSize ∧ report.status.size ≤ report.status.maxSize ∧
      report.status.waiting = 0 ∧
      report.status.size = report.status.available + held (before ++ [s]) (reports ++ [report])) ∧
    report.exchanges.countP (·.message.opens) ≤ 1 ∧
    (s.runs = true → next.lent = p.lent ∧ ∀ c, handed p s = some c →
      c.id ∈ (act p s).pool.idle.map Connection.id ∧ (act p s).pool.ids.count c.id = 1) := by
  intro reports p report next
  obtain ⟨empty, none, asking⟩ := startSound started
  have sound : p.Sound := (runBalances empty before).1
  refine ⟨fun unclosed => ?_, actOpensOne p s, fun runs => ?_⟩
  · obtain ⟨kept, unchanged, lent⟩ := runBalances empty (before ++ [s])
    rw [stepsAppend, none] at lent
    rw [stepsAppend] at kept unchanged
    change next.Sound at kept
    change next.config = _ at unchanged
    change next.lent.length = held (before ++ [s]) (reports ++ [report]) at lent
    have bounded := kept.bounded
    rw [Pool.idsLength] at bounded
    have resting := (runPending opened (before ++ [s])).trans asking
    rw [stepsAppend] at resting
    have status : report.status = _ := Pool.restingStatus (p := next) resting
    rw [status, unclosed, ← lent, ← unchanged]
    exact ⟨rfl, bounded, rfl, rfl⟩
  · obtain ⟨kept, lent, -, back⟩ := actReturns sound runs
    refine ⟨(Pool.settleReaps _).lent.trans lent, fun c asked => ⟨back c asked, ?_⟩⟩
    refine List.count_eq_one_of_mem kept.distinct ?_
    rw [Pool.ids, List.map_append]
    exact List.mem_append_left _ (back c asked)

theorem droppedInsertAccounted :
    let opened : Pool := { config := { maxSize := 2 }, listening := true, reaper := .running 0 false }
    let row : Record := [("name".toList, .null)]
    let q : Query := { table := "users".toList, insert := some [row, row] }
    let taken : Reply := { params := [.scalar .text] }
    let insert : Step := .query q { replies := [taken, { taken with drop := some .execute }] }
    let before : List Step := [.hold {}, .hold {}, .hold {}, .release]
    (step (steps opened before).2 insert).1.exchanges.length = 5 ∧
      (step (steps opened before).2 insert).1.status.size =
        (step (steps opened before).2 insert).1.status.available + 1 ∧
      ∃ c, handed (steps opened before).2 insert = some c ∧
        c.id ∈ (act (steps opened before).2 insert).pool.idle.map Connection.id := by
  intro opened row q taken insert before
  have started : Session.start .connected { maxSize := 2 } true = .ok (_, opened) := rfl
  have unclosed : (step (steps opened before).2 insert).2.closed = false := by decide +kernel
  have some : (handed (steps opened before).2 insert).isSome = true := by decide +kernel
  have one : held (before ++ [insert]) ((steps opened before).1 ++ [(step (steps opened before).2 insert).1]) = 1 := by
    decide +kernel
  obtain ⟨c, asked⟩ := Option.isSome_iff_exists.mp some
  obtain ⟨accounted, -, returned⟩ := connectionsAccounted started before insert
  obtain ⟨-, -, -, balance⟩ := accounted unclosed
  rw [one] at balance
  exact ⟨by decide +kernel, balance, c, asked, ((returned rfl).2 c asked).1⟩

end Session
end TableGateway
