import TableGateway.Proofs.Accounting

/-! No connection is handed out with a transaction open on it, unless the server refused to roll it back. The
invariant is on the log of a whole session: for every connection that the pool may still hand out, each beginning
that was acknowledged has its conclusion behind it. -/
namespace TableGateway

namespace Exchange

def beginning (id : Nat) : Exchange := ⟨id, .simple "START TRANSACTION".toList, .acknowledged⟩

inductive Concludes (id : Nat) (refusal : Text → Prop) : Exchange → Prop
  | commit {answer : Answer} (answered : answer ≠ .dropped) :
      Concludes id refusal ⟨id, .simple "COMMIT".toList, answer⟩
  | rollback : Concludes id refusal ⟨id, .simple "ROLLBACK".toList, .acknowledged⟩
  | refused {code : Text} (told : refusal code) :
      Concludes id refusal ⟨id, .simple "ROLLBACK".toList, .refused code⟩

def Concluded (id : Nat) (refusal : Text → Prop) : List Exchange → Prop
  | [] => True
  | x :: later => (x = beginning id → ∃ y ∈ later, Concludes id refusal y) ∧ Concluded id refusal later

variable {id : Nat} {refusal : Text → Prop} {log more : List Exchange}

theorem Concludes.other {x : Exchange} (concludes : Concludes id refusal x) : x ≠ beginning id := by
  intro begun
  cases concludes with
  | _ => cases congrArg Exchange.message begun

theorem concludedAppend (first : Concluded id refusal log) (second : Concluded id refusal more) :
    Concluded id refusal (log ++ more) := by
  induction log with
  | nil => exact second
  | cons x later ih =>
    refine ⟨fun begun => ?_, ih first.2⟩
    obtain ⟨y, member, ends⟩ := first.1 begun
    exact ⟨y, List.mem_append_left more member, ends⟩

theorem concludedUnbegun (none : ∀ x ∈ log, x ≠ beginning id) : Concluded id refusal log := by
  induction log with
  | nil => trivial
  | cons x later ih =>
    obtain ⟨other, rest⟩ := List.forall_mem_cons.mp none
    exact ⟨fun begun => absurd begun other, ih rest⟩

theorem concludedSplit {earlier later : List Exchange}
    (concluded : Concluded id refusal (earlier ++ beginning id :: later)) :
    ∃ x ∈ later, Concludes id refusal x := by
  induction earlier with
  | nil => exact concluded.1 rfl
  | cons x earlier ih => exact ih concluded.2

end Exchange

namespace Transcript

open Exchange

variable {id : Nat} {refusal : Text → Prop}

theorem plainUnbegun {sent : Sent} (plain : Plain sent) (connection : Nat) :
    ∀ x ∈ sent.over connection, x ≠ beginning id := by
  intro x member begun
  obtain ⟨original, found, rfl⟩ := List.mem_map.mp member
  exact plain.uncommanded original found _ (congrArg Exchange.message begun)

theorem concludedBehind {sent : Sent} {last : Message × Answer} (plain : Plain sent)
    (concludes : Concludes id refusal ⟨id, last.1, last.2⟩) :
    Concluded id refusal (Sent.over id (starting none :: sent ++ [last])) := by
  change (_ → ∃ y ∈ Sent.over id (sent ++ [last]), _) ∧ Concluded id refusal (Sent.over id (sent ++ [last]))
  rw [overAppend]
  refine ⟨fun _ => ⟨_, List.mem_append_right _ (List.mem_singleton_self _), concludes⟩, ?_⟩
  refine concludedAppend (concludedUnbegun (plainUnbegun plain id)) (concludedUnbegun fun x member => ?_)
  rw [List.mem_singleton.mp member]
  exact concludes.other

theorem rollbackConcludes {refused : Option Text} (told : ∀ code, refused = some code → refusal code) :
    Concludes id refusal ⟨id, (rollingBack refused).1, (rollingBack refused).2⟩ := by
  cases refused with
  | none => exact .rollback
  | some code => exact .refused (told code rfl)

theorem transactionConcluded {statements : List Statement} {script : Script} {sent : Sent}
    {result : Except Halt Output} (transaction : Transaction statements script sent result)
    (told : ∀ code, script.rollback = some code → refusal code) (alive : sent.lost = false) :
    Concluded id refusal (sent.over id) := by
  cases transaction with
  | unbegun =>
    refine ⟨nofun, concludedUnbegun fun x member => ?_⟩
    rw [List.mem_singleton.mp member]
    exact (rollbackConcludes told).other
  | committed _ run => exact concludedBehind (statementsPlain run) (.commit nofun)
  | uncommitted _ run => exact concludedBehind (statementsPlain run) (.commit nofun)
  | rolledBack _ run => exact concludedBehind (statementsPlain run) (rollbackConcludes told)
  | lost _ run dead =>
    have gone := (lostBehind _ []).trans (Bool.or_eq_true_iff.mpr (.inl dead))
    rw [List.append_nil, alive] at gone
    cases gone

end Transcript

def Step.script? : Step → Option Script
  | .query _ script => some script
  | .raw _ script => some script
  | .hold script => some script
  | _ => none

namespace Session

open Exchange Transcript

/-- Connections that are dead have no part in it: they are dropped when the pool comes to them. -/
structure Orderly (refusal : Text → Prop) (log : List Exchange) (p : Pool) : Prop where
  numbered : ∀ x ∈ log, x.connection < p.created
  concluded : ∀ c ∈ p.idle ++ p.lent, c.alive = true → Concluded c.id refusal log

variable {p : Pool} {refusal : Text → Prop} {log : List Exchange}

theorem orderlyReaped {q : Pool} (orderly : Orderly refusal log p) (reaped : p.Reaped q) :
    Orderly refusal log q where
  numbered := reaped.created ▸ orderly.numbered
  concluded c member := by
    rw [reaped.lent] at member
    exact orderly.concluded c ((reaped.idle.append_right p.lent).subset member)

theorem connectUnbegun {id created : Nat} {user database password : Text} {answer : Answer} :
    ∀ x ∈ [(⟨created, .connect user database password, answer⟩ : Exchange)], x ≠ beginning id := by
  intro x member begun
  rw [List.mem_singleton.mp member] at begun
  cases congrArg Exchange.message begun

theorem freshUnbegun (orderly : Orderly refusal log p) : Concluded p.created refusal log := by
  refine concludedUnbegun fun x member begun => ?_
  have number := orderly.numbered x member
  rw [begun] at number
  exact Nat.lt_irrefl _ number

theorem orderlyOpens {next : Pool} {answer : Except BackendFault Connection} {opening : List Exchange}
    (orderly : Orderly refusal log p) (opens : p.Opens answer opening next) :
    Orderly refusal (log ++ opening) next ∧
      ∀ c, answer = .ok c → Concluded c.id refusal (log ++ opening) := by
  have extended : ∀ {id answer} {user database password : Text}, Concluded id refusal log →
      Concluded id refusal (log ++ [⟨p.created, .connect user database password, answer⟩]) :=
    fun before => concludedAppend before (concludedUnbegun connectUnbegun)
  have numbered : ∀ {answer} {user database password : Text},
      ∀ x ∈ log ++ [(⟨p.created, .connect user database password, answer⟩ : Exchange)],
        x.connection < p.created + 1 := by
    intro answer user database password x member
    rcases List.mem_append.mp member with before | last
    · exact Nat.lt_succ_of_lt (orderly.numbered x before)
    · rw [List.mem_singleton.mp last]
      exact Nat.lt_succ_self _
  cases opens with
  | unsent => exact ⟨(List.append_nil log).symm ▸ orderly, nofun⟩
  | refused => exact ⟨⟨numbered, fun c member alive => extended (orderly.concluded c member alive)⟩, nofun⟩
  | accepted =>
    refine ⟨⟨numbered, fun c member alive => extended (orderly.concluded c member alive)⟩, fun c opened => ?_⟩
    cases opened
    exact extended (freshUnbegun orderly)

theorem orderlyLend {c : Connection} (orderly : Orderly refusal log p) (concluded : Concluded c.id refusal log) :
    Orderly refusal log (p.lend c) where
  numbered := orderly.numbered
  concluded d member alive := by
    rcases List.mem_append.mp member with idle | lent
    · exact orderly.concluded d (List.mem_append_left _ idle) alive
    · rcases List.mem_cons.mp lent with rfl | before
      · exact concluded
      · exact orderly.concluded d (List.mem_append_right _ before) alive

theorem orderlyLends {next : Pool} {answer : Except AcquireCause Connection} {opening : List Exchange}
    (orderly : Orderly refusal log p) (lends : p.Lends answer opening next) :
    Orderly refusal (log ++ opening) next ∧ ∀ c, answer = .ok c → Concluded c.id refusal log := by
  have emptied : Orderly refusal log { p.enter with idle := [] } :=
    ⟨orderly.numbered, fun c member => orderly.concluded c (List.mem_append_right _ member)⟩
  cases lends with
  | closed => exact ⟨(List.append_nil log).symm ▸ orderly, nofun⟩
  | exhausted => exact ⟨(List.append_nil log).symm ▸ orderly, nofun⟩
  | @reused dropped rest c opened room queue alive =>
    have queued : ∀ d ∈ c :: rest, d ∈ p.idle := fun d member => queue ▸ List.mem_append_right dropped member
    have left : Orderly refusal log { p.enter with idle := rest } := by
      refine ⟨orderly.numbered, fun d member => orderly.concluded d ?_⟩
      rcases List.mem_append.mp member with idle | lent
      · exact List.mem_append_left _ (queued d (List.mem_cons_of_mem c idle))
      · exact List.mem_append_right _ lent
    have concluded : Concluded c.id refusal log :=
      orderly.concluded c (List.mem_append_left _ (queued c List.mem_cons_self)) alive
    refine ⟨(List.append_nil log).symm ▸ orderlyLend left concluded, fun d same => ?_⟩
    cases same
    exact concluded
  | opened opened room opens =>
    obtain ⟨kept, concluded⟩ := orderlyOpens emptied opens
    refine ⟨orderlyLend kept (concluded _ rfl), fun c same => ?_⟩
    cases same
    cases opens with
    | accepted => exact freshUnbegun (p := p) orderly
  | unopened opened opens =>
    have kept := (orderlyOpens emptied opens).1
    exact ⟨⟨kept.numbered, kept.concluded⟩, nofun⟩

theorem giveBackMembers {p : Pool} {last d : Connection}
    (member : d ∈ (p.giveBack last).idle ++ (p.giveBack last).lent) :
    d = last ∨ d ∈ p.idle ∨ d ∈ p.lent ∧ d.id ≠ last.id := by
  unfold Pool.giveBack at member
  dsimp only at member
  rcases List.mem_append.mp member with idle | lent
  · split at idle
    · exact .inr (.inl idle)
    · rcases List.mem_append.mp idle with queued | back
      · exact .inr (.inl queued)
      · exact .inl (List.mem_singleton.mp back)
  · obtain ⟨before, other⟩ := List.mem_filter.mp lent
    exact .inr (.inr ⟨before, of_decide_eq_true other⟩)

theorem orderlyGiveBack {c last : Connection} {rest : List Connection} {sent : Sent} (sound : p.Sound)
    (orderly : Orderly refusal log p) (lent : p.lent = c :: rest) (same : last.id = c.id)
    (concluded : last.alive = true → Concluded c.id refusal (log ++ sent.over c.id)) :
    Orderly refusal (log ++ sent.over c.id) (p.giveBack last) := by
  have out : c.id ∈ p.lent.map Connection.id := lent ▸ List.mem_cons_self
  have distinct := sound.distinct
  unfold Pool.ids at distinct
  rw [List.map_append] at distinct
  have apart := (List.nodup_append.mp distinct).2.2
  have sameConnection : ∀ x ∈ sent.over c.id, x.connection = c.id := by
    intro x member
    obtain ⟨original, -, rfl⟩ := List.mem_map.mp member
    rfl
  -- numbers are not shared, so what was sent over this connection begins nothing on another
  have elsewhere : ∀ d, d ∈ p.idle ++ p.lent → d.alive = true → d.id ≠ c.id →
      Concluded d.id refusal (log ++ sent.over c.id) := by
    intro d member alive other
    refine concludedAppend (orderly.concluded d member alive) (concludedUnbegun fun x inside begun => ?_)
    have number := sameConnection x inside
    rw [begun] at number
    exact other number
  refine ⟨fun x member => ?_, fun d member alive => ?_⟩
  · rcases List.mem_append.mp member with before | during
    · exact orderly.numbered x before
    · rw [sameConnection x during]
      refine sound.numbered _ ?_
      rw [Pool.ids, List.map_append]
      exact List.mem_append_right _ out
  · rcases giveBackMembers member with rfl | idle | ⟨before, other⟩
    · exact same ▸ concluded alive
    · exact elsewhere d (List.mem_append_left _ idle) alive (apart _ (List.mem_map_of_mem idle) _ out)
    · exact elsewhere d (List.mem_append_right _ before) alive (same ▸ other)

theorem orderlyLoan {next : Pool} {allowed : Sent → Prop} {answer : Except AcquireCause Connection}
    {exchanges : List Exchange} (sound : p.Sound) (orderly : Orderly refusal log p)
    (ended : ∀ sent id, allowed sent → sent.lost = false → Concluded id refusal (sent.over id))
    (loan : Loan p allowed answer exchanges next) : Orderly refusal (log ++ exchanges) next := by
  cases loan with
  | refused lends => exact (orderlyLends orderly lends).1
  | @repaid c last opening _ _ sent lends reaped spoken id alive =>
    have kept := Pool.soundReaped (Pool.soundLends sound lends).1 reaped
    have lent := reaped.lent.trans lends.lent.1
    have ready := orderlyReaped (orderlyLends orderly lends).1 reaped
    have before := ready.concluded c (List.mem_append_right _ (lent ▸ List.mem_cons_self)) lends.alive
    rw [← List.append_assoc]
    refine orderlyGiveBack kept ready lent id fun live => concludedAppend before ?_
    rw [alive, Bool.not_eq_true'] at live
    exact ended sent c.id spoken live

theorem dialogueConcluded {plan : Plan} {script : Script} {sent : Sent} {id : Nat}
    (told : ∀ code, script.rollback = some code → refusal code) (spoken : Lease.Dialogue plan script sent)
    (alive : sent.lost = false) : Concluded id refusal (sent.over id) := by
  rcases spoken with plain | ⟨result, transaction⟩
  · exact concludedUnbegun (plainUnbegun plain id)
  · exact transactionConcluded transaction told alive

theorem actOrderly (sound : p.Sound) (orderly : Orderly refusal log p) (s : Step)
    (told : ∀ script, s.script? = some script → ∀ code, script.rollback = some code → refusal code) :
    Orderly refusal (log ++ (act p s).exchanges) (act p s).pool := by
  have woken := p.wakeReaps
  have awake := Pool.soundReaped sound woken
  have silent : ∀ q, Orderly refusal log q → Orderly refusal (log ++ []) q :=
    fun q still => (List.append_nil log).symm ▸ still
  cases s with
  | query q script =>
    change Orderly refusal (log ++ (runQuery p q script).exchanges) (runQuery p q script).pool
    rcases queryLoans p q script with ⟨-, nothing, reaped⟩ | ⟨plan, answer, -, -, loan⟩
    · rw [nothing]
      exact silent _ (orderlyReaped orderly reaped)
    · refine orderlyLoan awake (orderlyReaped orderly woken) (fun sent id spoken alive => ?_) loan
      exact dialogueConcluded (told script rfl) spoken alive
  | raw s script =>
    refine orderlyLoan awake (orderlyReaped orderly woken) (fun sent id plain _ => ?_) (rawLoans p s script)
    exact concludedUnbegun (plainUnbegun plain id)
  | hold script => exact (orderlyLends orderly (holdLends p script).1).1
  | close =>
    exact silent _ ⟨orderly.numbered, fun c member => orderly.concluded c (List.mem_append_right _ member)⟩
  | release =>
    change Orderly refusal (log ++ []) (release p)
    unfold release
    split
    · exact silent _ orderly
    · rename_i c rest lent
      have before := orderly.concluded c (List.mem_append_right _ (lent ▸ List.mem_cons_self))
      have given : Orderly refusal (log ++ Sent.over c.id []) (p.giveBack c) :=
        orderlyGiveBack sound orderly lent rfl fun live => concludedAppend (before live) trivial
      exact given
  | advance duration => exact silent _ (orderlyReaped orderly (p.advanceReaps duration))
  | _ => exact silent _ ⟨orderly.numbered, orderly.concluded⟩

theorem runOrderly (sound : p.Sound) (orderly : Orderly refusal log p) (ss : List Step)
    (told : ∀ s ∈ ss, ∀ script, s.script? = some script → ∀ code, script.rollback = some code → refusal code) :
    Orderly refusal (log ++ (steps p ss).1.flatMap (·.exchanges)) (steps p ss).2 := by
  induction ss generalizing p log with
  | nil => exact (List.append_nil log).symm ▸ orderly
  | cons s rest ih =>
    obtain ⟨now, later⟩ := List.forall_mem_cons.mp told
    have stepped : Orderly refusal (log ++ (step p s).1.exchanges) (step p s).2 :=
      orderlyReaped (actOrderly sound orderly s now) (Pool.settleReaps _)
    have all := ih (stepBalances sound s).sound stepped later
    rwa [List.append_assoc] at all

theorem handedLends {s : Step} {c : Connection} (obtained : handed p s = some c) :
    ∃ woken opening next, p.Reaped woken ∧ woken.Lends (.ok c) opening next := by
  have lends : ∀ woken script, p.Reaped woken → (woken.checkout script).1.toOption = some c →
      ∃ woken opening next, p.Reaped woken ∧ Pool.Lends woken (.ok c) opening next := by
    intro woken script reaped found
    have lends := woken.checkoutLends script
    rw [handedObtained found] at lends
    exact ⟨woken, _, _, reaped, lends⟩
  cases s with
  | query q script =>
    dsimp only [handed] at obtained
    split at obtained
    · split at obtained
      · cases obtained
      · exact lends _ script p.wakeReaps obtained
    · cases obtained
  | raw s script => exact lends _ script p.wakeReaps obtained
  | hold script => exact lends p script (.refl p) obtained
  | _ => cases obtained

theorem reusedConnectionConcluded {mode : Mode} {config : Configuration} {listening : Bool} {first : Report}
    {opened : Pool} (started : start mode config listening = .ok (first, opened)) (before : List Step) (s : Step)
    {c : Connection} (obtained : handed (steps opened before).2 s = some c) {earlier later : List Exchange}
    (begun : (steps opened before).1.flatMap (·.exchanges) =
      earlier ++ ⟨c.id, .simple "START TRANSACTION".toList, .acknowledged⟩ :: later) :
    ∃ x ∈ later, x.connection = c.id ∧
      (x.message = .simple "COMMIT".toList ∧ x.answer ≠ .dropped ∨
       x.message = .simple "ROLLBACK".toList ∧ (x.answer = .acknowledged ∨
        ∃ b ∈ before, ∃ script code, b.script? = some script ∧ script.rollback = some code ∧
          x.answer = .refused code)) := by
  let refusal (code : Text) : Prop :=
    ∃ b ∈ before, ∃ script, b.script? = some script ∧ script.rollback = some code
  obtain ⟨empty, lent, -⟩ := startSound started
  have blank : Orderly refusal [] opened := ⟨nofun, fun c _ _ => trivial⟩
  have orderly := runOrderly empty blank before fun b member script given code refused =>
    ⟨b, member, script, given, refused⟩
  obtain ⟨woken, opening, next, reaped, lends⟩ := handedLends obtained
  have concluded := (orderlyLends (orderlyReaped orderly reaped) lends).2 c rfl
  rw [List.nil_append, begun] at concluded
  obtain ⟨x, member, concludes⟩ := concludedSplit concluded
  refine ⟨x, member, ?_⟩
  cases concludes with
  | commit answered => exact ⟨rfl, .inl ⟨rfl, answered⟩⟩
  | rollback => exact ⟨rfl, .inr ⟨rfl, .inl rfl⟩⟩
  | refused told =>
    obtain ⟨b, inside, script, given, code⟩ := told
    exact ⟨rfl, .inr ⟨rfl, .inr ⟨b, inside, script, _, given, code, rfl⟩⟩⟩

theorem rolledBackConnectionReused :
    let opened : Pool := { config := {}, listening := true, reaper := .absent }
    let row : Record := [("name".toList, .null)]
    let taken : Reply := { params := [.scalar .text] }
    let refused : Reply := { taken with error := some (.execute, "23502".toList) }
    let q : Query := { table := "users".toList, insert := some [row, row] }
    let before : List Step := [.query q { replies := [taken, refused] }]
    let log := (steps opened before).1.flatMap (·.exchanges)
    handed (steps opened before).2 (.hold {}) = some { id := 0, lastUsed := 0 } ∧
      log = log.take 1 ++ ⟨0, .simple "START TRANSACTION".toList, .acknowledged⟩ :: log.drop 2 ∧
      ∃ x ∈ log.drop 2, x.connection = 0 ∧
        (x.message = .simple "COMMIT".toList ∧ x.answer ≠ .dropped ∨
         x.message = .simple "ROLLBACK".toList ∧ x.answer = .acknowledged) := by
  intro opened row taken refused q before log
  have started : Session.start .wrapped {} true = .ok (_, opened) := rfl
  have obtained : handed (steps opened before).2 (.hold {}) = some { id := 0, lastUsed := 0 } := by
    decide +kernel
  have begun : log = log.take 1 ++ ⟨0, .simple "START TRANSACTION".toList, .acknowledged⟩ :: log.drop 2 := by
    decide +kernel
  refine ⟨obtained, begun, ?_⟩
  obtain ⟨x, member, number, commit | ⟨rollback, acknowledged | ⟨b, inside, script, code, given, told, -⟩⟩⟩ :=
    reusedConnectionConcluded started before (.hold {}) obtained begun
  · exact ⟨x, member, number, .inl commit⟩
  · exact ⟨x, member, number, .inr ⟨rollback, acknowledged⟩⟩
  · rw [List.mem_singleton.mp inside] at given
    cases given
    cases told

/-- The server refuses to roll back as well: the connection is handed out again with its transaction open. -/
theorem refusedRollbackReused :
    let opened : Pool := { config := {}, listening := true, reaper := .absent }
    let row : Record := [("name".toList, .null)]
    let taken : Reply := { params := [.scalar .text] }
    let refused : Reply := { taken with error := some (.execute, "23502".toList) }
    let q : Query := { table := "users".toList, insert := some [row, row] }
    let before : List Step := [.query q { replies := [taken, refused], rollback := some "XX000".toList }]
    let log := (steps opened before).1.flatMap (·.exchanges)
    (∃ report, Session.start .wrapped {} true = .ok (report, opened)) ∧
      handed (steps opened before).2 (.query (.of "users".toList) {}) = some { id := 0, lastUsed := 0 } ∧
      log = log.take 1 ++ ⟨0, .simple "START TRANSACTION".toList, .acknowledged⟩ :: log.drop 2 ∧
      ∀ x ∈ log.drop 2, ¬ (x.message = .simple "COMMIT".toList ∧ x.answer ≠ .dropped) ∧
        ¬ (x.message = .simple "ROLLBACK".toList ∧ x.answer = .acknowledged) := by
  refine ⟨⟨_, rfl⟩, ?_, ?_, ?_⟩
  · decide +kernel
  · decide +kernel
  · decide +kernel

end Session
end TableGateway
