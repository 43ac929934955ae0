import TableGateway.Shared
import TableGateway.Proofs.Crowd

/-! Any number of callers ask for the one handle, and their turns come in any order. The cell is filled once, with
a pool that none of them closes. Who finds it filled closes the pool it built before its own call returns. -/
namespace TableGateway
namespace Shared

def Unclosed (s : Shared) (k : Nat) : Prop := ∃ p, s.pools[k]? = some p ∧ p.closed = false

def Closed (s : Shared) (k : Nat) : Prop := ∃ p, s.pools[k]? = some p ∧ p.closed = true

structure Holds (s : Shared) (own : Nat) : Prop where
  unclosed : s.Unclosed own
  unpublished : s.cell ≠ some own

inductive Goes (s : Shared) (request : Request) : Turn → Turn → Shared → Prop
  | found {k : Nat} {lookup : Text → Option Text} (take : request = .take lookup) (filled : s.cell = some k) :
      Goes s request .begin (.done (.ok k)) s
  | passed (unmet : ∀ k, s.cell = some k → ∃ config, request = .setUp config) : Goes s request .begin .build s
  | refused {fault : Fault} (invalid : configuration request = .error fault) :
      Goes s request .build (.done (.error fault)) s
  | built {config : Configuration} {p : Pool} (valid : configuration request = .ok config)
      (unclosed : p.closed = false) :
      Goes s request .build (.publish s.pools.length) { s with pools := s.pools ++ [p] }
  | lost {own : Nat} (filled : s.cell.isSome) : Goes s request (.publish own) (.abandon own) s
  | won {own : Nat} (empty : s.cell = none) : Goes s request (.publish own) .read { s with cell := some own }
  | late {own : Nat} {config : Configuration} (setUp : request = .setUp config) :
      Goes s request (.abandon own) (.done (.error (.config .alreadyInitialized))) (s.closePool own)
  | yielded {own : Nat} {lookup : Text → Option Text} (take : request = .take lookup) :
      Goes s request (.abandon own) .read (s.closePool own)
  | taken {k : Nat} (filled : s.cell = some k) : Goes s request .read (.done (.ok k)) s
  | missing (empty : s.cell = none) : Goes s request .read (.done (.error (.config .notInitialized))) s
  | rested {result : Except Fault Nat} : Goes s request (.done result) (.done result) s

theorem turnGoes (s : Shared) (request : Request) (t : Turn) :
    s.Goes request t (s.turn request t).1 (s.turn request t).2.1 := by
  cases t with
  | begin =>
    cases request with
    | setUp config => exact .passed fun _ _ => ⟨config, rfl⟩
    | take lookup =>
      unfold turn
      cases filled : s.cell with
      | none => exact .passed fun k some => nomatch filled.symm.trans some
      | some k => exact .found rfl filled
  | build =>
    unfold turn
    cases valid : configuration request with
    | error fault => exact .refused valid
    | ok config => exact .built valid rfl
  | publish own =>
    unfold turn
    cases filled : s.cell with
    | none => exact .won filled
    | some k => exact .lost (filled ▸ rfl)
  | abandon own =>
    cases request with
    | setUp config => exact .late rfl
    | take lookup => exact .yielded rfl
  | read =>
    unfold turn
    cases filled : s.cell with
    | none => exact .missing filled
    | some k => exact .taken filled
  | done result => exact .rested

variable {s next : Shared} {request : Request} {t u : Turn}

theorem closedOther {k own : Nat} (other : own ≠ k) : (s.closePool own).pools[k]? = s.pools[k]? :=
  List.getElem?_modify_ne Pool.close s.pools other

theorem closesOwn {own : Nat} (unclosed : s.Unclosed own) : (s.closePool own).Closed own := by
  obtain ⟨p, found, -⟩ := unclosed
  refine ⟨p.close, ?_, rfl⟩
  unfold closePool
  simp [found]

theorem closedStays {k own : Nat} (closed : s.Closed k) : (s.closePool own).Closed k := by
  obtain ⟨p, found, shut⟩ := closed
  by_cases same : own = k
  · subst same
    refine ⟨p.close, ?_, rfl⟩
    unfold closePool
    simp [found]
  · exact ⟨p, (closedOther same).trans found, shut⟩

theorem goesKeepsCell {k : Nat} (goes : s.Goes request t u next) (filled : s.cell = some k) :
    next.cell = some k := by
  cases goes with
  | won empty => cases empty.symm.trans filled
  | _ => exact filled

theorem goesKeepsClosed {k : Nat} (goes : s.Goes request t u next) (closed : s.Closed k) : next.Closed k := by
  cases goes with
  | built =>
    obtain ⟨p, found, shut⟩ := closed
    exact ⟨p, (List.getElem?_append_left (List.getElem?_eq_some_iff.mp found).1).trans found, shut⟩
  | late => exact closedStays closed
  | yielded => exact closedStays closed
  | _ => exact closed

inductive Denies (s : Shared) (request : Request) : Fault → Prop
  | invalid {fault : Fault} (invalid : configuration request = .error fault) : Denies s request fault
  | late {asked config : Configuration} (setUp : request = .setUp asked) (valid : configuration request = .ok config)
      (filled : s.cell.isSome) : Denies s request (.config .alreadyInitialized)

end Shared

namespace Turn

def own? : Turn → Option Nat
  | .publish own => some own
  | .abandon own => some own
  | _ => none

def served : Turn → Bool
  | .read => true
  | .done (.ok _) => true
  | _ => false

def left : Turn → Nat
  | .begin => 5
  | .build => 4
  | .publish _ => 3
  | .abandon _ => 2
  | .read => 1
  | .done _ => 0

def Stands (s : Shared) (request : Request) : Turn → Prop
  | .begin => True
  | .build => True
  | .publish own => s.Holds own ∧ ∃ config, Shared.configuration request = .ok config
  | .abandon own => s.Holds own ∧ (∃ config, Shared.configuration request = .ok config) ∧ s.cell.isSome
  | .read => s.cell.isSome
  | .done (.ok k) => s.cell = some k
  | .done (.error fault) => s.Denies request fault

end Turn

namespace Shared

variable {s next : Shared} {request : Request} {t u : Turn}

theorem goesKeepsUnclosed {k : Nat} (goes : s.Goes request t u next) (other : t.own? ≠ some k)
    (unclosed : s.Unclosed k) : next.Unclosed k := by
  obtain ⟨p, found, unclosed⟩ := unclosed
  cases goes with
  | built => exact ⟨p, (List.getElem?_append_left (List.getElem?_eq_some_iff.mp found).1).trans found, unclosed⟩
  | late => exact ⟨p, (closedOther fun same => other (congrArg some same)).trans found, unclosed⟩
  | yielded => exact ⟨p, (closedOther fun same => other (congrArg some same)).trans found, unclosed⟩
  | _ => exact ⟨p, found, unclosed⟩

theorem goesFills (goes : s.Goes request t u next) :
    next.cell = s.cell ∨ s.cell = none ∧ ∃ own, t = .publish own ∧ next.cell = some own := by
  cases goes with
  | won empty => exact .inr ⟨empty, _, rfl, rfl⟩
  | _ => exact .inl rfl

theorem standsHolds {own : Nat} (stands : t.Stands s request) (owns : t.own? = some own) : s.Holds own := by
  cases t with
  | publish other => cases owns; exact stands.1
  | abandon other => cases owns; exact stands.1
  | _ => cases owns

theorem servedFilled (stands : t.Stands s request) (served : t.served = true) : s.cell.isSome := by
  cases t with
  | read => exact stands
  | done result =>
    cases result with
    | ok k =>
      have filled : s.cell = some k := stands
      rw [filled]
      rfl
    | error fault => cases served
  | _ => cases served

theorem goesStands (within : ∀ k, s.cell = some k → s.Unclosed k) (goes : s.Goes request t u next)
    (stands : t.Stands s request) : u.Stands next request := by
  cases goes with
  | found _ filled => exact filled
  | passed => exact trivial
  | refused invalid => exact .invalid invalid
  | @built config p valid unclosed =>
    refine ⟨⟨⟨p, by simp, unclosed⟩, fun filled => ?_⟩, config, valid⟩
    obtain ⟨other, found, -⟩ := within _ filled
    exact Nat.lt_irrefl _ (List.getElem?_eq_some_iff.mp found).1
  | lost filled => exact ⟨stands.1, stands.2, filled⟩
  | won => exact rfl
  | late setUp =>
    obtain ⟨-, ⟨config, valid⟩, filled⟩ := stands
    exact .late setUp valid filled
  | yielded => exact stands.2.2
  | taken filled => exact filled
  | missing empty =>
    have filled : s.cell.isSome := stands
    rw [empty] at filled
    cases filled
  | rested => exact stands

theorem goesSpares {other : Request} {v : Turn} (goes : s.Goes request t u next)
    (apart : ∀ own, v.own? = some own → t.own? ≠ some own) (stands : v.Stands s other) : v.Stands next other := by
  have filled : s.cell.isSome → next.cell.isSome := by
    intro filled
    obtain ⟨k, found⟩ := Option.isSome_iff_exists.mp filled
    exact Option.isSome_iff_exists.mpr ⟨k, goesKeepsCell goes found⟩
  have holds : ∀ own, v.own? = some own → s.Holds own → next.Holds own := by
    intro own owns holds
    refine ⟨goesKeepsUnclosed goes (apart own owns) holds.unclosed, fun published => ?_⟩
    rcases goesFills goes with same | ⟨-, mine, rfl, now⟩
    · exact holds.unpublished (same.symm.trans published)
    · exact apart own owns (now.symm.trans published)
  cases v with
  | publish own => exact ⟨holds own rfl stands.1, stands.2⟩
  | abandon own => exact ⟨holds own rfl stands.1, stands.2.1, filled stands.2.2⟩
  | read => exact filled stands
  | done result =>
    cases result with
    | ok k => exact goesKeepsCell goes stands
    | error fault =>
      cases stands with
      | invalid invalid => exact .invalid invalid
      | late setUp valid some => exact .late setUp valid (filled some)
  | _ => exact trivial

theorem goesOwns {own : Nat} (goes : s.Goes request t u next) (owns : u.own? = some own) :
    own = s.pools.length ∨ t.own? = some own := by
  cases goes with
  | built => exact .inl (Option.some.inj owns).symm
  | lost => exact .inr owns
  | rested => cases owns
  | _ => cases owns

theorem goesServes {asked : Configuration} (setUp : request = .setUp asked) (goes : s.Goes request t u next)
    (served : u.served = true) : t.served = true ∨ s.cell = none := by
  subst setUp
  cases goes with
  | found take => cases take
  | won empty => exact .inr empty
  | yielded take => cases take
  | taken => exact .inl rfl
  | rested => exact .inl served
  | _ => cases served

theorem goesLeft (goes : s.Goes request t u next) : u.left ≤ t.left - 1 := by
  cases goes with
  | _ => simp [Turn.left]

theorem goesInvalid {fault : Fault} (invalid : configuration request = .error fault) (stands : t.Stands s request)
    (goes : s.Goes request t u next) : next = s := by
  cases goes with
  | built valid => cases invalid.symm.trans valid
  | won => obtain ⟨-, config, valid⟩ := stands; cases invalid.symm.trans valid
  | late => obtain ⟨-, ⟨config, valid⟩, -⟩ := stands; cases invalid.symm.trans valid
  | yielded => obtain ⟨-, ⟨config, valid⟩, -⟩ := stands; cases invalid.symm.trans valid
  | _ => rfl

theorem callFirst (empty : s.cell = none) {config : Configuration} (valid : configuration request = .ok config) :
    ∃ p, (s.call request).1 = .ok p ∧ p.config = config ∧
      (s.call request).2.1.cell = some s.pools.length ∧ (s.call request).2.1.pools = s.pools ++ [p] := by
  refine ⟨{ config, listening := false, reaper := .dormant }, ?_⟩
  cases request with
  | setUp asked => simp [call, complete, turn, empty, valid, Except.bind]
  | take lookup => simp [call, complete, turn, empty, valid, Except.bind]

end Shared

namespace Shared

variable (requests : Nat → Request)

def ask (i : Nat) (t : Turn) (s : Shared) : Turn × Shared :=
  let (t, s, _) := s.turn (requests i) t
  (t, s)

def unasked : Crowd Shared Turn := ⟨{}, fun _ => .begin⟩

structure Consistent (c : Crowd Shared Turn) : Prop where
  within : ∀ k, c.shared.cell = some k → c.shared.Unclosed k
  stands : ∀ i, (c.turns i).Stands c.shared (requests i)
  apart : ∀ i j own, (c.turns i).own? = some own → (c.turns j).own? = some own → i = j
  first : ∀ i j a b, requests i = .setUp a → requests j = .setUp b →
    (c.turns i).served = true → (c.turns j).served = true → i = j

theorem moveGoes (c : Crowd Shared Turn) (i : Nat) :
    c.shared.Goes (requests i) (c.turns i) ((c.move (ask requests) i).turns i) (c.move (ask requests) i).shared := by
  obtain ⟨mover, shared⟩ := c.moveMover (ask requests) i
  rw [mover, shared]
  exact turnGoes c.shared (requests i) (c.turns i)

variable {requests} {c : Crowd Shared Turn}

theorem startConsistent : Consistent requests unasked where
  within := nofun
  stands _ := trivial
  apart := nofun
  first := nofun

theorem moveStands (consistent : Consistent requests c) (i j : Nat) :
    ((c.move (ask requests) i).turns j).Stands (c.move (ask requests) i).shared (requests j) := by
  have goes := moveGoes requests c i
  by_cases same : j = i
  · subst same
    exact goesStands consistent.within goes (consistent.stands j)
  · rw [c.moveOther _ same]
    refine goesSpares goes (fun own owns mine => ?_) (consistent.stands j)
    exact same (consistent.apart j i own owns mine)

theorem moveWithin (consistent : Consistent requests c) (i k : Nat)
    (filled : (c.move (ask requests) i).shared.cell = some k) : (c.move (ask requests) i).shared.Unclosed k := by
  have goes := moveGoes requests c i
  rcases goesFills goes with same | ⟨-, own, publishes, now⟩
  · rw [same] at filled
    refine goesKeepsUnclosed goes (fun owns => ?_) (consistent.within k filled)
    exact (standsHolds (consistent.stands i) owns).unpublished filled
  · cases now.symm.trans filled
    have stands := consistent.stands i
    rw [publishes] at stands goes
    generalize (c.move (ask requests) i).turns i = turn at goes
    generalize (c.move (ask requests) i).shared = next at goes now
    cases goes with
    | lost some => exact absurd now stands.1.unpublished
    | won => exact stands.1.unclosed

theorem moveOwns {i j own : Nat} (owns : ((c.move (ask requests) i).turns j).own? = some own) :
    (j = i ∧ own = c.shared.pools.length) ∨ (c.turns j).own? = some own := by
  have goes := moveGoes requests c i
  by_cases same : j = i
  · subst same
    exact (goesOwns goes owns).imp_left fun new => ⟨rfl, new⟩
  · rw [c.moveOther _ same] at owns
    exact .inr owns

theorem ownsBelow (consistent : Consistent requests c) {j own : Nat} (owns : (c.turns j).own? = some own) :
    own < c.shared.pools.length := by
  obtain ⟨p, found, -⟩ := (standsHolds (consistent.stands j) owns).unclosed
  exact (List.getElem?_eq_some_iff.mp found).1

theorem moveApart (consistent : Consistent requests c) (n : Nat) {i j own : Nat}
    (one : ((c.move (ask requests) n).turns i).own? = some own)
    (two : ((c.move (ask requests) n).turns j).own? = some own) : i = j := by
  rcases moveOwns one with ⟨rfl, new⟩ | before
  · rcases moveOwns two with ⟨rfl, -⟩ | other
    · rfl
    · exact absurd (ownsBelow consistent other) (new ▸ Nat.lt_irrefl _)
  · rcases moveOwns two with ⟨rfl, new⟩ | other
    · exact absurd (ownsBelow consistent before) (new ▸ Nat.lt_irrefl _)
    · exact consistent.apart i j own before other

theorem moveServes (n : Nat) {i : Nat} {a : Configuration} (setUp : requests i = .setUp a)
    (served : ((c.move (ask requests) n).turns i).served = true) :
    (c.turns i).served = true ∨ i = n ∧ c.shared.cell = none := by
  have goes := moveGoes requests c n
  by_cases same : i = n
  · subst same
    exact (goesServes setUp goes served).imp_right fun empty => ⟨rfl, empty⟩
  · rw [c.moveOther _ same] at served
    exact .inl served

theorem moveFirst (consistent : Consistent requests c) (n : Nat) {i j : Nat} {a b : Configuration}
    (one : requests i = .setUp a) (two : requests j = .setUp b)
    (served : ((c.move (ask requests) n).turns i).served = true)
    (also : ((c.move (ask requests) n).turns j).served = true) : i = j := by
  have none : ∀ m, (c.turns m).served = true → c.shared.cell ≠ none := by
    intro m before empty
    have filled := servedFilled (consistent.stands m) before
    rw [empty] at filled
    cases filled
  rcases moveServes n one served with before | ⟨rfl, empty⟩
  · rcases moveServes n two also with other | ⟨rfl, empty⟩
    · exact consistent.first i j a b one two before other
    · exact absurd empty (none i before)
  · rcases moveServes i two also with other | ⟨rfl, -⟩
    · exact absurd empty (none j other)
    · rfl

theorem moveConsistent (consistent : Consistent requests c) (i : Nat) :
    Consistent requests (c.move (ask requests) i) where
  within := moveWithin consistent i
  stands := moveStands consistent i
  apart _ _ _ := moveApart consistent i
  first _ _ _ _ := moveFirst consistent i

theorem movesConsistent (consistent : Consistent requests c) (order : List Nat) :
    Consistent requests (c.moves (ask requests) order) :=
  Crowd.movesKeep _ (Consistent requests) (fun _ i consistent => moveConsistent consistent i) consistent order

theorem movesKeepCell {k : Nat} (filled : c.shared.cell = some k) (order : List Nat) :
    (c.moves (ask requests) order).shared.cell = some k :=
  Crowd.movesKeep _ (fun c => c.shared.cell = some k) (fun c i => goesKeepsCell (moveGoes requests c i)) filled order

def Settles (i own : Nat) (c : Crowd Shared Turn) : Prop :=
  (c.turns i).own? = some own ∨ c.shared.cell = some own ∨ c.shared.Closed own

theorem moveSettles (consistent : Consistent requests c) (n : Nat) {i own : Nat} (settles : Settles i own c) :
    Settles i own (c.move (ask requests) n) := by
  have goes := moveGoes requests c n
  rcases settles with owns | filled | closed
  · by_cases same : i = n
    · subst same
      have holds := standsHolds (consistent.stands i) owns
      unfold Settles
      generalize (c.move (ask requests) i).turns i = turn at goes ⊢
      generalize (c.move (ask requests) i).shared = next at goes ⊢
      generalize c.turns i = before at goes owns
      cases goes with
      | lost => exact .inl owns
      | won => exact .inr (.inl owns)
      | late => cases owns; exact .inr (.inr (closesOwn holds.unclosed))
      | yielded => cases owns; exact .inr (.inr (closesOwn holds.unclosed))
      | _ => cases owns
    · exact .inl ((congrArg Turn.own? (c.moveOther _ same)).trans owns)
  · exact .inr (.inl (goesKeepsCell goes filled))
  · exact .inr (.inr (goesKeepsClosed goes closed))

theorem movesSettle (consistent : Consistent requests c) (order : List Nat) {i own : Nat}
    (settles : Settles i own c) : Settles i own (c.moves (ask requests) order) := by
  have both := Crowd.movesKeep (ask requests) (fun c => Consistent requests c ∧ Settles i own c)
    (fun _ n kept => ⟨moveConsistent kept.1 n, moveSettles kept.1 n kept.2⟩) ⟨consistent, settles⟩ order
  exact both.2

theorem movesUnserved {i k : Nat} {a : Configuration} (setUp : requests i = .setUp a)
    (filled : c.shared.cell = some k) (unserved : (c.turns i).served = false) (order : List Nat) :
    ((c.moves (ask requests) order).turns i).served = false := by
  have both := Crowd.movesKeep (ask requests) (fun c => c.shared.cell = some k ∧ (c.turns i).served = false)
    (fun c n kept => ?_) ⟨filled, unserved⟩ order
  · exact both.2
  · refine ⟨goesKeepsCell (moveGoes requests c n) kept.1, Bool.eq_false_iff.mpr fun served => ?_⟩
    rcases moveServes n setUp served with before | ⟨-, empty⟩
    · exact Bool.eq_false_iff.mp kept.2 before
    · cases kept.1.symm.trans empty

theorem leftDone {t : Turn} (none : t.left = 0) : ∃ result, t = .done result := by
  cases t with
  | done result => exact ⟨result, rfl⟩
  | _ => cases none

theorem deniedInit {s : Shared} {asked : Configuration} {fault : Fault} (denies : s.Denies (.setUp asked) fault) :
    ∃ cause, fault = .config cause ∧ (asked.validate = .ok asked → cause = .alreadyInitialized) := by
  cases denies with
  | invalid invalid =>
    have invalid : asked.validate = .error fault := invalid
    refine ⟨if asked.maxSize = 0 then .noConnections else .noHost, ?_, fun valid => nomatch invalid.symm.trans valid⟩
    unfold Configuration.validate at invalid
    split at invalid
    · rename_i zero
      rw [if_pos zero]
      exact (Except.error.inj invalid).symm
    · rename_i some
      split at invalid
      · rw [if_neg some]
        exact (Except.error.inj invalid).symm
      · cases invalid
  | late => exact ⟨_, rfl, fun _ => rfl⟩

/-- Whoever asks, in whatever order their turns come: one pool is published and stays open, each call that succeeds
returns it, and every other pool is closed when the call that built it is over. A second initialization fails, a
call that cannot be configured changes nothing, and no call waits for another. -/
theorem oneHandleForAll (requests : Nat → Request) (order more : List Nat) :
    let c := unasked.moves (ask requests) order
    let d := c.moves (ask requests) more
    (∀ k, c.shared.cell = some k → d.shared.cell = some k ∧ d.shared.Unclosed k) ∧
    (∀ i k, c.turns i = .done (.ok k) → c.shared.cell = some k) ∧
    (∀ i own result, c.turns i = .publish own → d.turns i = .done result →
      d.shared.cell = some own ∨ d.shared.Closed own) ∧
    (∀ i j a b k l, requests i = .setUp a → requests j = .setUp b → c.turns i = .done (.ok k) →
      c.turns j = .done (.ok l) → i = j) ∧
    (∀ i asked result, requests i = .setUp asked → c.shared.cell.isSome → (c.turns i).served = false →
      d.turns i = .done result → ∃ cause, result = .error (.config cause) ∧
        (asked.validate = .ok asked → cause = .alreadyInitialized)) ∧
    (∀ i fault, configuration (requests i) = .error fault → (c.move (ask requests) i).shared = c.shared ∧
      ∀ other, c.turns i = .done (.error other) → other = fault) ∧
    (∀ i config fault, configuration (requests i) = .ok config → c.turns i = .done (.error fault) →
      (∃ asked, requests i = .setUp asked) ∧ fault = .config .alreadyInitialized ∧ c.shared.cell.isSome) ∧
    (∀ request config, configuration request = .ok config → c.shared.cell = none →
      ∃ p, (c.shared.call request).1 = .ok p ∧ p.config = config) ∧
    ∀ i, 5 ≤ more.count i → ∃ result, d.turns i = .done result := by
  intro c d
  have consistent : Consistent requests c := movesConsistent startConsistent order
  have later : Consistent requests d := movesConsistent consistent more
  have stood : ∀ i result, c.turns i = .done result → (Turn.done result).Stands c.shared (requests i) :=
    fun i result arrived => arrived ▸ consistent.stands i
  refine ⟨fun k filled => ?_, fun i k arrived => stood i _ arrived, fun i own result building arrived => ?_,
    ?_, ?_, ?_, ?_, ?_, ?_⟩
  · have kept : d.shared.cell = some k := movesKeepCell filled more
    exact ⟨kept, later.within k kept⟩
  · have settled : Settles i own d := movesSettle consistent more (.inl (congrArg Turn.own? building))
    rcases settled with owns | published
    · rw [arrived] at owns
      cases owns
    · exact published
  · intro i j a b k l one two first second
    exact consistent.first i j a b one two (congrArg Turn.served first) (congrArg Turn.served second)
  · intro i asked result setUp filled unserved arrived
    obtain ⟨k, filled⟩ := Option.isSome_iff_exists.mp filled
    have still := movesUnserved setUp filled unserved more
    have stands : (Turn.done result).Stands d.shared (requests i) := arrived ▸ later.stands i
    have refused : (Turn.done result).served = false := arrived ▸ still
    cases result with
    | ok k => cases refused
    | error fault =>
      rw [setUp] at stands
      obtain ⟨cause, rfl, late⟩ := deniedInit stands
      exact ⟨cause, rfl, late⟩
  · intro i fault invalid
    refine ⟨goesInvalid invalid (consistent.stands i) (moveGoes requests c i), fun other arrived => ?_⟩
    cases stood i _ arrived with
    | invalid same => exact Except.error.inj (same.symm.trans invalid)
    | late _ valid => cases invalid.symm.trans valid
  · intro i config fault valid arrived
    have denies : c.shared.Denies (requests i) fault := stood i _ arrived
    cases denies with
    | invalid invalid => cases invalid.symm.trans valid
    | late setUp _ filled => exact ⟨⟨_, setUp⟩, rfl, filled⟩
  · intro request config valid empty
    obtain ⟨p, returned, configured, -⟩ := callFirst empty valid
    exact ⟨p, returned, configured⟩
  · intro i turns
    have left : (d.turns i).left ≤ _ := c.movesNear (ask requests) Turn.left (fun t s => goesLeft (turnGoes s _ t)) more
    have most : (c.turns i).left ≤ 5 := by
      cases c.turns i with
      | _ => simp [Turn.left]
    exact leftDone (Nat.eq_zero_of_le_zero (by omega))

theorem firstUseOvertakesInit :
    let requests : Nat → Request := fun i =>
      if i = 0 then .setUp {} else if i = 1 then .take fun _ => none else .setUp { maxSize := 0 }
    let c := unasked.moves (ask requests) [0, 1, 0, 1, 1]
    let d := c.moves (ask requests) [0, 2, 1, 0, 2]
    d.shared.cell = some 1 ∧ d.shared.Unclosed 1 ∧ d.shared.Closed 0 ∧
      (∃ cause, d.turns 0 = .done (.error (.config cause)) ∧ cause = .alreadyInitialized) ∧
      (c.move (ask requests) 2).shared = c.shared ∧ d.turns 2 = .done (.error (.config .noConnections)) := by
  intro requests c d
  have filled : c.shared.cell = some 1 := rfl
  have lost : d.turns 0 = .done (.error (.config .alreadyInitialized)) := rfl
  have refused : d.turns 2 = .done (.error (.config .noConnections)) := rfl
  obtain ⟨kept, -, settled, -, late, invalid, -⟩ := oneHandleForAll requests [0, 1, 0, 1, 1] [0, 2, 1, 0, 2]
  obtain ⟨published, unclosed⟩ := kept 1 filled
  obtain ⟨cause, same, known⟩ := late 0 {} _ rfl rfl rfl lost
  have closed : d.shared.Closed 0 := by
    rcases settled 0 0 _ rfl lost with other | closed
    · cases published.symm.trans other
    · exact closed
  have unchanged := (invalid 2 (.config .noConnections) rfl).1
  exact ⟨published, unclosed, closed, ⟨cause, lost.trans (congrArg Turn.done same), known rfl⟩, unchanged, refused⟩

end Shared
end TableGateway
