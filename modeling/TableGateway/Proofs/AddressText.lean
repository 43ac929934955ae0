import Mathlib.Data.List.Forall2
import Mathlib.Data.Nat.Init
import TableGateway.NetAddress
import TableGateway.Proofs.Characters

/-! Texts of network addresses. What is written for an address is told by a relation, in which only one thing is left
open: for which addresses of version 6 the last two groups are written as an address of version 4 is. No address has
two texts of one such kind. -/
namespace TableGateway

namespace Text

inductive Numeral (base : Nat) : Nat → Text → Prop
  | digit {n : Nat} (single : n < base) : Numeral base n [Nat.digitChar n]
  | longer {n d : Nat} {t : Text} (front : Numeral base n t) (positive : 0 < n) (single : d < base) :
      Numeral base (base * n + d) (t ++ [Nat.digitChar d])

variable {base n : Nat} {t : Text}

theorem numeralDigits (several : 1 < base) (n : Nat) : Numeral base n (Nat.toDigits base n) := by
  induction n using Nat.strong_induction_on with
  | _ n ih =>
    by_cases single : n < base
    · rw [Nat.toDigits_of_lt_base single]
      exact .digit single
    · have long := Nat.not_lt.mp single
      have front := ih (n / base) (Nat.div_lt_self (by omega) several)
      have longer := front.longer (Nat.div_pos long (by omega)) (Nat.mod_lt n (by omega))
      rwa [Nat.div_add_mod, ← Nat.toDigits_of_base_le several long] at longer

theorem Numeral.text (several : 1 < base) (numeral : Numeral base n t) : t = Nat.toDigits base n := by
  induction numeral with
  | digit single => exact (Nat.toDigits_of_lt_base single).symm
  | longer front positive single ih =>
    rw [ih, ← Nat.toDigits_of_lt_base single, Nat.toDigits_append_toDigits several positive single]

theorem Numeral.without {mark : Char} (numeral : Numeral base n t) (hex : base ≤ 16)
    (foreign : ∀ d < 16, Nat.digitChar d ≠ mark) : mark ∉ t := by
  induction numeral with
  | digit single => simpa [eq_comm] using foreign _ (Nat.lt_of_lt_of_le single hex)
  | longer front positive single ih => simpa [ih, eq_comm] using foreign _ (Nat.lt_of_lt_of_le single hex)

theorem Numeral.filled (numeral : Numeral base n t) : t ≠ [] := by
  cases numeral <;> simp

end Text

namespace Host
open Text (Numeral)

inductive Dotted : List Nat → Text → Prop
  | numbers {ns : List Nat} {ts : List Text} (each : List.Forall₂ (Numeral 10) ns ts) :
      Dotted ns (['.'].intercalate ts)

inductive Pieces : Bool → List Nat → List Text → Prop
  | done : Pieces false [] []
  | group {dotted : Bool} {g : Nat} {gs : List Nat} {t : Text} {ts : List Text} (numeral : Numeral 16 g t)
      (behind : Pieces dotted gs ts) : Pieces dotted (g :: gs) (t :: ts)
  | dotted {high low : Nat} {t : Text} (numbers : Dotted [high / 256, high % 256, low / 256, low % 256] t) :
      Pieces true [high, low] [t]

structure LongestRun (groups before : List Nat) (zeros : Nat) (after : List Nat) : Prop where
  whole : groups = before ++ (List.replicate zeros 0 ++ after)
  longest : ∀ {front n back}, groups = front ++ (List.replicate n 0 ++ back) →
    n < zeros ∨ n = zeros ∧ before.length ≤ front.length

inductive Grouped (dotted : Bool) : List Nat → Text → Prop
  | whole {groups : List Nat} {ts : List Text}
      (single : ∀ {front n back}, groups = front ++ (List.replicate n 0 ++ back) → n < 2)
      (pieces : Pieces dotted groups ts) : Grouped dotted groups ([':'].intercalate ts)
  | shortened {groups before after : List Nat} {zeros : Nat} {fs bs : List Text}
      (run : LongestRun groups before zeros after) (several : 2 ≤ zeros) (front : Pieces false before fs)
      (back : Pieces dotted after bs) :
      Grouped dotted groups ([':'].intercalate fs ++ ':' :: ':' :: [':'].intercalate bs)

inductive Written (layout : List Nat → Bool) : Host → Text → Prop
  | v4 {octets : Bytes} {t : Text} (numbers : Dotted (octets.map UInt8.toNat) t) : Written layout (.v4 octets) t
  | v6 {octets : Bytes} {t : Text} (groups : Grouped (layout (segments octets)) (segments octets) t) :
      Written layout (.v6 octets) t

variable {dotted : Bool} {ns gs : List Nat} {t u : Text} {ts us : List Text} {mark : Char}

theorem eachWithout (each : List.Forall₂ (Numeral 10) ns ts) (foreign : ∀ d < 16, Nat.digitChar d ≠ mark) :
    ∀ t ∈ ts, mark ∉ t := by
  induction each with
  | nil => exact nofun
  | cons numeral _ ih => exact List.forall_mem_cons.mpr ⟨numeral.without (by decide) foreign, ih⟩

theorem Dotted.without (numbers : Dotted ns t) (foreign : ∀ d < 16, Nat.digitChar d ≠ mark) (other : mark ≠ '.') :
    mark ∉ t := by
  cases numbers with
  | numbers each =>
    intro member
    rcases Text.memIntercalate member with point | ⟨part, inside, own⟩
    · exact other (List.mem_singleton.mp point)
    · exact eachWithout each foreign part inside own

theorem Dotted.pointed {n m : Nat} (numbers : Dotted (n :: m :: ns) t) : '.' ∈ t := by
  cases numbers with
  | numbers each =>
    cases each with
    | cons _ behind =>
      cases behind with
      | cons => simp [List.intercalate_cons_cons]

theorem eachText (each : List.Forall₂ (Numeral 10) ns ts) : ts = ns.map (Nat.toDigits 10) := by
  induction each with
  | nil => rfl
  | cons numeral _ ih => rw [List.map_cons, ← ih, ← numeral.text (by decide)]

theorem Dotted.unique (left : Dotted ns t) (right : Dotted ns u) : t = u := by
  cases left with
  | numbers each =>
    cases right with
    | numbers eachToo => rw [eachText each, eachText eachToo]

theorem Pieces.clean (pieces : Pieces dotted gs ts) : ∀ t ∈ ts, t ≠ [] ∧ ':' ∉ t ∧ '/' ∉ t := by
  induction pieces with
  | done => exact nofun
  | group numeral _ ih =>
    refine List.forall_mem_cons.mpr ⟨⟨numeral.filled, ?_, ?_⟩, ih⟩ <;>
      exact numeral.without (by decide) (by decide)
  | dotted numbers =>
    have filled := List.ne_nil_of_mem numbers.pointed
    exact List.forall_mem_singleton.mpr ⟨filled, numbers.without (by decide) (by decide),
      numbers.without (by decide) (by decide)⟩

theorem Pieces.pointless (pieces : Pieces false gs ts) : ∀ t ∈ ts, '.' ∉ t := by
  generalize same : false = dotted at pieces
  induction pieces with
  | done => exact nofun
  | group numeral _ ih => exact List.forall_mem_cons.mpr ⟨numeral.without (by decide) (by decide), ih same⟩
  | dotted => cases same

theorem Pieces.pointed (pieces : Pieces true gs ts) : ∃ t ∈ ts, '.' ∈ t := by
  generalize same : true = dotted at pieces
  induction pieces with
  | done => cases same
  | group _ _ ih =>
    obtain ⟨t, member, point⟩ := ih same
    exact ⟨t, List.mem_cons_of_mem _ member, point⟩
  | dotted numbers => exact ⟨_, List.mem_cons_self, numbers.pointed⟩

theorem Pieces.filling (pieces : Pieces dotted gs ts) : gs.length ≤ ts.length + 1 := by
  induction pieces with
  | done => exact Nat.zero_le _
  | group _ _ ih => exact Nat.succ_le_succ ih
  | dotted => exact Nat.le_refl _

theorem Pieces.several (pieces : Pieces true gs ts) : 2 ≤ gs.length := by
  generalize same : true = dotted at pieces
  induction pieces with
  | done => cases same
  | group _ _ ih => exact Nat.le_succ_of_le (ih same)
  | dotted => exact Nat.le_refl _

theorem Pieces.unique (left : Pieces dotted gs ts) (right : Pieces dotted gs us) : ts = us := by
  induction left generalizing us with
  | done =>
    cases right
    rfl
  | group numeral behind ih =>
    cases right with
    | group numeralToo behindToo => rw [ih behindToo, numeral.text (by decide), numeralToo.text (by decide)]
    | dotted => exact absurd behind.several (by simp)
  | dotted numbers =>
    cases right with
    | group _ behind => exact absurd behind.several (by simp)
    | dotted numbersToo => rw [numbers.unique numbersToo]

theorem LongestRun.unique {before after beforeToo afterToo : List Nat} {zeros zerosToo : Nat}
    (left : LongestRun gs before zeros after) (right : LongestRun gs beforeToo zerosToo afterToo) :
    before = beforeToo ∧ zeros = zerosToo ∧ after = afterToo := by
  have least := left.longest right.whole
  have most := right.longest left.whole
  obtain rfl : zeros = zerosToo := by omega
  have same := left.whole.symm.trans right.whole
  obtain ⟨rfl, rest⟩ := List.append_inj same (by omega)
  exact ⟨rfl, rfl, List.append_cancel_left rest⟩

theorem Grouped.unique (left : Grouped dotted gs t) (right : Grouped dotted gs u) : t = u := by
  cases left with
  | whole single pieces =>
    cases right with
    | whole _ piecesToo => rw [pieces.unique piecesToo]
    | shortened run several => exact absurd (single run.whole) (by omega)
  | shortened run several front back =>
    cases right with
    | whole single => exact absurd (single run.whole) (by omega)
    | shortened runToo _ frontToo backToo =>
      obtain ⟨rfl, rfl, rfl⟩ := run.unique runToo
      rw [front.unique frontToo, back.unique backToo]

theorem Grouped.without (grouped : Grouped dotted gs t) (other : mark ≠ ':')
    (each : ∀ {d gs ts}, Pieces d gs ts → (d → dotted) → ∀ u ∈ ts, mark ∉ u) : mark ∉ t := by
  have joined {d : Bool} {gs : List Nat} {ts : List Text} (pieces : Pieces d gs ts) (last : d → dotted) :
      mark ∉ [':'].intercalate ts := fun member => by
    rcases Text.memIntercalate member with colon | ⟨u, inside, own⟩
    · exact other (List.mem_singleton.mp colon)
    · exact each pieces last u inside own
  cases grouped with
  | whole _ pieces => exact joined pieces id
  | shortened _ _ front back => simp [joined front nofun, joined back id, other]

theorem Grouped.pointed (grouped : Grouped true gs t) : '.' ∈ t := by
  cases grouped with
  | whole _ pieces =>
    obtain ⟨u, inside, point⟩ := pieces.pointed
    exact Text.memJoined inside point _
  | shortened _ _ _ back =>
    obtain ⟨u, inside, point⟩ := back.pointed
    simp [Text.memJoined inside point]

theorem Grouped.colon (grouped : Grouped dotted gs t) (several : 3 ≤ gs.length) : ':' ∈ t := by
  cases grouped with
  | @whole ts _ pieces =>
    have long : 2 ≤ ts.length := by
      have filling := pieces.filling
      omega
    rcases ts with _ | ⟨u, _ | ⟨v, ts⟩⟩
    · exact absurd long (by simp)
    · exact absurd long (by simp)
    · simp [List.intercalate_cons_cons]
  | shortened => simp

section
variable {layout : List Nat → Bool} {h : Host}

theorem Written.unique (left : Written layout h t) (right : Written layout h u) : t = u := by
  cases left with
  | v4 numbers =>
    cases right with
    | v4 numbersToo => exact numbers.unique numbersToo
  | v6 groups =>
    cases right with
    | v6 groupsToo => exact groups.unique groupsToo

theorem Written.slashless (written : Written layout h t) : '/' ∉ t := by
  cases written with
  | v4 numbers => exact numbers.without (by decide) (by decide)
  | v6 groups => exact groups.without (by decide) fun pieces _ u inside => (pieces.clean u inside).2.2

end

end Host

namespace NetAddress
open Text (Numeral)

inductive Written (layout : List Nat → Bool) (a : NetAddress) : Text → Prop
  | single {t : Text} (host : a.host.Written layout t) (lone : a.network = false) (whole : a.bits = a.host.bits) :
      Written layout a t
  | ranged {t b : Text} (host : a.host.Written layout t) (range : a.network = true ∨ a.bits ≠ a.host.bits)
      (numeral : Numeral 10 a.bits b) : Written layout a (t ++ '/' :: b)

variable {layout : List Nat → Bool} {a : NetAddress} {t u : Text}

theorem Written.unique (left : a.Written layout t) (right : a.Written layout u) : t = u := by
  cases left with
  | single host lone whole =>
    cases right with
    | single hostToo => exact host.unique hostToo
    | ranged _ range => exact absurd range (by simp [lone, whole])
  | ranged host range numeral =>
    cases right with
    | single _ lone whole => exact absurd range (by simp [lone, whole])
    | ranged hostToo _ numeralToo =>
      rw [host.unique hostToo, numeral.text (by decide), numeralToo.text (by decide)]

end NetAddress
end TableGateway
