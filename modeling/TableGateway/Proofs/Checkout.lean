import TableGateway.Pool

/-! What the pool lends is alive, and all that is sent to open it is a connect. -/
namespace TableGateway
namespace Pool

inductive Opens (p : Pool) : Except BackendFault Connection → List Exchange → Pool → Prop
  | unsent {fault : BackendFault} : Opens p (.error fault) [] p
  | refused {user database password code : Text} :
      Opens p (.error (.server code)) [⟨p.created, .connect user database password, .refused code⟩]
        { p with created := p.created + 1 }
  | accepted {user database password : Text} :
      Opens p (.ok { id := p.created, lastUsed := p.now })
        [⟨p.created, .connect user database password, .acknowledged⟩] { p with created := p.created + 1 }

inductive Lends (p : Pool) : Except AcquireCause Connection → List Exchange → Pool → Prop
  | closed (closed : p.closed = true) : Lends p (.error .closed) [] p
  | exhausted (opened : p.closed = false) (full : p.config.maxSize ≤ p.lent.length) :
      Lends p (.error .timeout) [] p
  | reused {dropped rest : List Connection} {c : Connection} (opened : p.closed = false)
      (room : p.lent.length < p.config.maxSize) (queue : p.idle = dropped ++ c :: rest)
      (alive : c.alive = true) :
      Lends p (.ok { c with lastUsed := p.now }) [] ({ p.enter with idle := rest }.lend { c with lastUsed := p.now })
  | opened {c : Connection} {opening : List Exchange} {next : Pool} (opened : p.closed = false)
      (room : p.lent.length < p.config.maxSize) (opens : { p.enter with idle := [] }.Opens (.ok c) opening next) :
      Lends p (.ok c) opening (next.lend c)
  | unopened {fault : BackendFault} {opening : List Exchange} {next : Pool} (opened : p.closed = false)
      (opens : { p.enter with idle := [] }.Opens (.error fault) opening next) :
      Lends p (.error (.connect fault)) opening next.leave

theorem connectOpening (p : Pool) (script : Script) :
    p.Opens (p.connect script).1 (p.connect script).2.1 (p.connect script).2.2 := by
  unfold connect
  dsimp only
  split
  · exact .unsent
  · split
    · exact .unsent
    · split
      · exact .refused
      · exact .accepted

theorem takenFrom {p : Pool} {c : Connection} {next : Pool} (taken : p.takeIdle? = some (c, next)) :
    ∃ dropped first rest, p.idle = dropped ++ first :: rest ∧ first.alive = true ∧
      c = { first with lastUsed := p.now } ∧ next = { p with idle := rest } := by
  unfold takeIdle? at taken
  split at taken
  · cases taken
  · rename_i first rest found
    cases taken
    have parts := List.takeWhile_append_dropWhile (p := fun c : Connection => !c.alive) (l := p.idle)
    have alive := List.head?_dropWhile_not (fun c : Connection => !c.alive) p.idle
    rw [found] at parts alive
    exact ⟨_, first, rest, parts.symm, by simpa using alive, rfl, rfl⟩

theorem checkoutLends (p : Pool) (script : Script) :
    p.Lends (p.checkout script).1 (p.checkout script).2.1 (p.checkout script).2.2 := by
  unfold checkout
  dsimp only
  split
  · rename_i closed
    exact .closed closed
  · rename_i opened
    rw [Bool.not_eq_true] at opened
    split
    · rename_i full
      exact .exhausted opened full
    · rename_i room
      rw [Nat.not_le] at room
      split
      · rename_i c next taken
        obtain ⟨dropped, first, rest, queue, alive, rfl, rfl⟩ := takenFrom taken
        exact .reused (c := first) opened room queue alive
      · have opens := connectOpening { p.enter with idle := [] } script
        generalize connect { p.enter with idle := [] } script = answer at *
        obtain ⟨fault | c, opening, next⟩ := answer
        · exact .unopened opened opens
        · exact .opened opened room opens

theorem Opens.opening {p next : Pool} {answer : Except BackendFault Connection} {opening : List Exchange}
    (opens : p.Opens answer opening next) : opening = [] ∨
      ∃ user database password answer, opening = [⟨p.created, .connect user database password, answer⟩] ∧
        answer ≠ .completed := by
  cases opens with
  | unsent => exact .inl rfl
  | refused => exact .inr ⟨_, _, _, _, rfl, nofun⟩
  | accepted => exact .inr ⟨_, _, _, _, rfl, nofun⟩

theorem Lends.opening {p next : Pool} {answer : Except AcquireCause Connection} {opening : List Exchange}
    (lends : p.Lends answer opening next) : opening = [] ∨
      ∃ user database password answer, opening = [⟨p.created, .connect user database password, answer⟩] ∧
        answer ≠ .completed := by
  cases lends with
  | closed => exact .inl rfl
  | exhausted => exact .inl rfl
  | reused => exact .inl rfl
  | opened _ _ opens => exact opens.opening
  | unopened _ opens => exact opens.opening

theorem Lends.alive {p next : Pool} {c : Connection} {opening : List Exchange}
    (lends : p.Lends (.ok c) opening next) : c.alive = true := by
  cases lends with
  | reused _ _ _ alive => exact alive
  | opened _ _ opens =>
    cases opens with
    | accepted => rfl

theorem Lends.lent {p next : Pool} {c : Connection} {opening : List Exchange}
    (lends : p.Lends (.ok c) opening next) : next.lent = c :: p.lent ∧ next.closed = false := by
  cases lends with
  | reused opened => exact ⟨rfl, opened⟩
  | opened opened _ opens =>
    cases opens with
    | accepted => exact ⟨rfl, opened⟩

theorem Lends.kept {p next : Pool} {cause : AcquireCause} {opening : List Exchange}
    (lends : p.Lends (.error cause) opening next) : next.lent = p.lent := by
  cases lends with
  | closed => rfl
  | exhausted => rfl
  | unopened _ opens =>
    cases opens with
    | unsent => rfl
    | refused => rfl

theorem Lends.pending {p next : Pool} {answer : Except AcquireCause Connection} {opening : List Exchange}
    (lends : p.Lends answer opening next) : next.pending = p.pending := by
  cases lends with
  | closed => rfl
  | exhausted => rfl
  | reused => rfl
  | opened _ _ opens =>
    cases opens with
    | accepted => rfl
  | unopened _ opens =>
    cases opens with
    | unsent => rfl
    | refused => rfl

theorem Lends.uncommanded {p next : Pool} {answer : Except AcquireCause Connection} {opening : List Exchange}
    (lends : p.Lends answer opening next) : ∀ x ∈ opening, ∀ sql, x.message ≠ .simple sql := by
  rcases lends.opening with rfl | ⟨user, database, password, answer, rfl, -⟩
  · exact nofun
  · intro x member sql
    rw [List.mem_singleton.mp member]
    exact nofun

theorem checkoutOpens (p : Pool) (script : Script) :
    (∀ c, (p.checkout script).1 = .ok c → c.alive = true) ∧
      ∀ x ∈ (p.checkout script).2.1, ∀ sql, x.message ≠ .simple sql := by
  have lends := p.checkoutLends script
  refine ⟨fun c obtained => ?_, lends.uncommanded⟩
  rw [obtained] at lends
  exact lends.alive

theorem takeIdleReaper (p : Pool) (r : Reaper) : { p with reaper := r }.takeIdle? =
    p.takeIdle?.map fun (c, next) => (c, { next with reaper := r }) := by
  unfold takeIdle?
  dsimp only
  split
  · rfl
  · rfl

theorem connectReaper (p : Pool) (r : Reaper) (script : Script) :
    { p with reaper := r }.connect script = ((p.connect script).1, (p.connect script).2.1,
      { (p.connect script).2.2 with reaper := r }) := by
  unfold connect
  dsimp only
  split
  · rfl
  · split
    · rfl
    · split
      · rfl
      · rfl

theorem checkoutReaper (p : Pool) (r : Reaper) (script : Script) :
    ({ p with reaper := r }.checkout script).1 = (p.checkout script).1 ∧
      ({ p with reaper := r }.checkout script).2.1 = (p.checkout script).2.1 := by
  unfold checkout
  dsimp only [enter]
  have taken := takeIdleReaper p.enter r
  dsimp only [enter] at taken
  rw [taken]
  split
  · exact ⟨rfl, rfl⟩
  · split
    · exact ⟨rfl, rfl⟩
    · generalize takeIdle? _ = answer
      cases answer with
      | some taken => exact ⟨rfl, rfl⟩
      | none =>
        have same := connectReaper { p.enter with idle := [] } r script
        dsimp only [enter] at same
        dsimp only [Option.map]
        rw [same]
        generalize connect _ script = opened
        obtain ⟨fault | c, exchanges, next⟩ := opened
        · exact ⟨rfl, rfl⟩
        · exact ⟨rfl, rfl⟩

theorem checkoutWoken (p : Pool) (script : Script) :
    (p.wake.1.checkout script).1 = (p.checkout script).1 ∧
      (p.wake.1.checkout script).2.1 = (p.checkout script).2.1 := by
  unfold wake
  split
  · exact checkoutReaper p _ script
  · exact ⟨rfl, rfl⟩

end Pool
end TableGateway
