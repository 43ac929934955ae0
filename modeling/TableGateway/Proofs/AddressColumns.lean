import Mathlib.Data.List.TakeWhile
import TableGateway.Proofs.AddressReader
import TableGateway.Proofs.ArrayColumns

/-! Network addresses in a column. What is printed is the one text of the address that has points only where an address
of version 4 stands behind `::ffff`. A database has points behind six zeros as well, so that the two texts are the same
for all other addresses, and either way the address and its prefix are read back. -/
namespace TableGateway

namespace Host
open Text (Numeral)

def mapped (groups : List Nat) : Bool := groups.take 6 == [0, 0, 0, 0, 0, 0xffff]

def compatible (groups : List Nat) : Bool := groups.take 6 == [0, 0, 0, 0, 0, 0] && groups[6]? != some 0

def standard (groups : List Nat) : Bool := mapped groups || compatible groups

def isCompatible : Host → Bool
  | .v4 _ => false
  | .v6 octets => compatible (segments octets)

variable {groups before after : List Nat} {n : Nat}

theorem zerosTake (few : n ≤ zeros groups) : groups.take n = List.replicate n 0 := by
  obtain ⟨rest, whole⟩ := List.takeWhile_prefix (l := groups) (· = 0)
  have within : groups.take n = (groups.takeWhile (· = 0)).take n := by
    conv_lhs => rw [← whole]
    exact List.take_append_of_le_length few
  rw [within, List.eq_replicate_iff]
  refine ⟨List.length_take_of_le few, fun g member => ?_⟩
  simpa using List.mem_takeWhile_imp (List.mem_of_mem_take member)

theorem zerosRun (n : Nat) (rest : List Nat) : n ≤ zeros (List.replicate n 0 ++ rest) := by
  rw [zeros, List.takeWhile_append_of_pos (by simp)]
  simp

structure Best (groups : List Nat) (place : Nat) (best : Nat × Nat) : Prop where
  early : best.1 ≤ place
  found : best.2 ≤ zeros (groups.drop best.1)
  most : ∀ start < place, zeros (groups.drop start) < best.2 ∨
    zeros (groups.drop start) = best.2 ∧ best.1 ≤ start

theorem bestFound (groups : List Nat) : Best groups groups.length (longestRun groups) := by
  have upTo (place : Nat) : Best groups place ((List.range place).foldl (fun best start =>
      let length := zeros (groups.drop start)
      if best.2 < length then (start, length) else best) (0, 0)) := by
    induction place with
    | zero => exact ⟨Nat.le_refl 0, Nat.zero_le _, nofun⟩
    | succ place ih =>
      -- a run at the next place is taken only if it is longer, so the first of two equals stays
      rw [List.range_succ, List.foldl_append, List.foldl_cons, List.foldl_nil]
      generalize (List.range place).foldl _ _ = best at ih
      obtain ⟨early, found, most⟩ := ih
      by_cases longer : best.2 < zeros (groups.drop place)
      · simp only [if_pos longer]
        refine ⟨Nat.le_succ place, Nat.le_refl _, fun start before => ?_⟩
        rcases Nat.lt_succ_iff_lt_or_eq.mp before with earlier | rfl
        · have shorter := most start earlier
          exact .inl (by omega)
        · exact .inr ⟨rfl, Nat.le_refl _⟩
      · simp only [if_neg longer]
        refine ⟨Nat.le_succ_of_le early, found, fun start before => ?_⟩
        rcases Nat.lt_succ_iff_lt_or_eq.mp before with earlier | rfl
        · exact most start earlier
        · omega
  exact upTo groups.length

theorem Best.runs {best : Nat × Nat} (found : Best groups groups.length best) {front back : List Nat}
    (some : 0 < n) (whole : groups = front ++ (List.replicate n 0 ++ back)) :
    n < best.2 ∨ n = best.2 ∧ best.1 ≤ front.length := by
  have inside : front.length < groups.length := by
    rw [whole, List.length_append, List.length_append, List.length_replicate]
    omega
  have long : n ≤ zeros (groups.drop front.length) := by
    rw [whole, List.drop_left]
    exact zerosRun n back
  have most := found.most front.length inside
  omega

theorem longestRunFound {start length : Nat} (found : longestRun groups = (start, length)) (some : 0 < length) :
    LongestRun groups (groups.take start) length (groups.drop (start + length)) := by
  have best := bestFound groups
  rw [found] at best
  refine ⟨?_, fun {front n back} whole => ?_⟩
  · rw [← zerosTake best.found, ← List.drop_drop, List.take_append_drop, List.take_append_drop]
  · rw [List.length_take_of_le best.early]
    rcases Nat.eq_zero_or_pos n with rfl | positive
    · exact .inl some
    · exact best.runs positive whole

theorem leadingRun {g zeros : Nat} {rest : List Nat} (other : g ≠ 0) (short : rest.length < zeros) :
    LongestRun (List.replicate zeros 0 ++ g :: rest) [] zeros (g :: rest) := by
  refine ⟨rfl, fun {front n back} whole => ?_⟩
  have lengths := congrArg List.length whole
  simp only [List.length_append, List.length_replicate, List.length_cons] at lengths
  have most : n ≤ zeros := by
    by_contra more
    have here : (List.replicate zeros 0 ++ g :: rest)[zeros]? = some g := by simp
    rw [whole, List.getElem?_append_right (by omega), List.getElem?_append_left (by simp; omega),
      List.getElem?_replicate_of_lt (by omega)] at here
    exact other (Option.some.inj here).symm
  simp only [List.length_nil, Nat.zero_le, and_true]
  omega

theorem groupPieces (groups : List Nat) : Pieces false groups (groups.map segmentText) := by
  induction groups with
  | nil => exact .done
  | cons g groups ih => exact .group (Text.numeralDigits (by decide) g) ih

theorem dottedNumbers (octets : Bytes) : Dotted (octets.map UInt8.toNat) (dotted octets) := by
  refine .numbers ?_
  induction octets with
  | nil => exact .nil
  | cons b octets ih => exact .cons (Text.numeralDigits (by decide) b.toNat) ih

theorem plainGrouped (groups : List Nat) : Grouped false groups
    (let (start, length) := longestRun groups
     if 1 < length then joined (groups.take start) ++ ':' :: ':' :: joined (groups.drop (start + length))
     else joined groups) := by
  cases found : longestRun groups with
  | mk start length =>
    by_cases several : 1 < length
    · simp only [if_pos several]
      exact .shortened (longestRunFound found (by omega)) several (groupPieces _) (groupPieces _)
    · simp only [if_neg several]
      refine .whole (fun {front n back} whole => ?_) (groupPieces groups)
      have best := bestFound groups
      rw [found] at best
      rcases Nat.eq_zero_or_pos n with rfl | positive
      · decide
      · have most := best.runs positive whole
        simp only at most
        omega

theorem segmentsAppend {front : Bytes} (even : front.length % 2 = 0) (back : Bytes) :
    segments (front ++ back) = segments front ++ segments back := by
  induction front using List.twoStepInduction with
  | nil => rfl
  | singleton => cases even
  | cons_cons high low rest ih =>
    simp only [List.cons_append, segments]
    rw [ih (by simp only [List.length_cons] at even; omega)]

theorem mappedFront {front : Bytes} (twelve : front.length = 12) (back : Bytes) :
    mapped (segments (front ++ back)) ↔ front = List.replicate 10 0 ++ [255, 255] := by
  have six : (segments front).length = 6 := by rw [segmentsLength, twelve]
  rw [mapped, segmentsAppend (by rw [twelve]), List.take_left' six, beq_iff_eq]
  constructor
  · intro same
    rw [← segmentsBytes (show front.length % 2 = 0 by rw [twelve]), same]
    decide
  · rintro rfl
    rfl

theorem lastPieces (a b c d : UInt8) : Pieces true (segments [a, b, c, d]) [dotted [a, b, c, d]] := by
  have pair (high low : UInt8) : (256 * high.toNat + low.toNat) / 256 = high.toNat ∧
      (256 * high.toNat + low.toNat) % 256 = low.toNat := by
    have byte : low.toNat < 256 := low.toNat_lt
    omega
  have numbers := dottedNumbers [a, b, c, d]
  refine .dotted ?_
  rw [(pair a b).1, (pair a b).2, (pair c d).1, (pair c d).2]
  exact numbers

theorem mappedGrouped (a b c d : UInt8) :
    Grouped true (segments (List.replicate 10 0 ++ [255, 255] ++ [a, b, c, d]))
      ("::ffff:".toList ++ dotted [a, b, c, d]) := by
  have groups : segments (List.replicate 10 0 ++ [255, 255] ++ [a, b, c, d]) =
      List.replicate 5 0 ++ 0xffff :: segments [a, b, c, d] := by
    rw [segmentsAppend (by decide)]
    rfl
  have run : LongestRun (List.replicate 5 0 ++ 0xffff :: segments [a, b, c, d]) [] 5
      (0xffff :: segments [a, b, c, d]) := leadingRun (by decide) (by simp [segments])
  have grouped := Grouped.shortened run (by decide) .done
    (.group (Text.numeralDigits (by decide) 0xffff) (lastPieces a b c d))
  have digits : Nat.toDigits 16 0xffff = "ffff".toList := by decide
  rw [groups]
  simpa [digits, List.intercalate_cons_cons] using grouped

theorem fourBytes {bs : Bytes} (four : bs.length = 4) : ∃ a b c d, bs = [a, b, c, d] := by
  obtain ⟨a, bs, rfl⟩ := List.exists_cons_of_length_eq_add_one four
  obtain ⟨b, c, d, rfl⟩ := List.length_eq_three.mp (Nat.succ.inj four)
  exact ⟨a, b, c, d, rfl⟩

theorem printWritten {h : Host} (full : h.Full) : h.Written mapped h.print := by
  cases h with
  | v4 octets => exact .v4 (dottedNumbers octets)
  | v6 octets =>
    have sixteen : octets.length = 16 := full
    have twelve : (octets.take 12).length = 12 := List.length_take_of_le (by omega)
    have front := mappedFront twelve (octets.drop 12)
    rw [List.take_append_drop] at front
    refine .v6 ?_
    rw [print]
    by_cases embedded : octets.take 12 = List.replicate 10 0 ++ [255, 255]
    · obtain ⟨a, b, c, d, back⟩ : ∃ a b c d, octets.drop 12 = [a, b, c, d] := by
        refine fourBytes ?_
        rw [List.length_drop, sixteen]
      have grouped := mappedGrouped a b c d
      rw [← embedded, ← back, List.take_append_drop] at grouped
      rwa [if_pos embedded, front.mpr embedded]
    · rw [if_neg embedded, Bool.eq_false_iff.mpr fun yes => embedded (front.mp yes)]
      exact plainGrouped (segments octets)

section
variable {left right : List Nat → Bool} {h : Host} {octets : Bytes} {t : Text}

theorem Written.relaid (written : h.Written left t)
    (same : ∀ octets, h = .v6 octets → left (segments octets) = right (segments octets)) : h.Written right t := by
  cases written with
  | v4 numbers => exact .v4 numbers
  | v6 groups => exact .v6 (same _ rfl ▸ groups)

theorem Written.pointed (written : (Host.v6 octets).Written left t) (last : left (segments octets)) : '.' ∈ t := by
  cases written with
  | v6 groups =>
    rw [last] at groups
    exact groups.pointed

theorem Written.pointless (written : (Host.v6 octets).Written left t) (none : left (segments octets) = false) :
    '.' ∉ t := by
  cases written with
  | v6 groups =>
    rw [none] at groups
    refine groups.without (by decide) fun {d gs ts} pieces last => ?_
    obtain rfl : d = false := Bool.eq_false_iff.mpr fun yes => absurd (last yes) Bool.false_ne_true
    exact pieces.pointless

end

theorem compatibleUnmapped {groups : List Nat} (compatible : compatible groups) : mapped groups = false := by
  have zeros : groups.take 6 = [0, 0, 0, 0, 0, 0] := beq_iff_eq.mp (Bool.and_eq_true_iff.mp compatible).1
  rw [mapped, zeros]
  rfl

end Host

namespace NetAddress

inductive Carries : Bytes → NetAddress → Prop
  | v4 {bits flag : UInt8} {octets : Bytes} (four : octets.length = 4) :
      Carries (2 :: bits :: flag :: 4 :: octets) ⟨.v4 octets, bits.toNat, flag ≠ 0⟩
  | v6 {bits flag : UInt8} {octets : Bytes} (sixteen : octets.length = 16) :
      Carries (3 :: bits :: flag :: 16 :: octets) ⟨.v6 octets, bits.toNat, flag ≠ 0⟩

variable {bs : Bytes} {a : NetAddress}

theorem Carries.full (carries : Carries bs a) : a.host.Full := by
  cases carries with
  | v4 four => exact four
  | v6 sixteen => exact sixteen

theorem ofBytesCarries : ofBytes? bs = some a ↔ Carries bs a := by
  constructor
  · intro read
    unfold ofBytes? at read
    split at read
    case h_2 => cases read
    case h_1 family bits network length octets =>
      split at read
      · cases read
      · rename_i counted
        have counted := Decidable.not_not.mp counted
        split at read
        · rename_i four
          obtain ⟨rfl, four⟩ := four
          obtain rfl : length = 4 := UInt8.toNat_inj.mp (counted.symm.trans four)
          obtain rfl := Option.some.inj read
          exact .v4 four
        · split at read
          · rename_i sixteen
            obtain ⟨rfl, sixteen⟩ := sixteen
            obtain rfl : length = 16 := UInt8.toNat_inj.mp (counted.symm.trans sixteen)
            obtain rfl := Option.some.inj read
            exact .v6 sixteen
          · cases read
  · intro carries
    cases carries with
    | v4 four => simp [ofBytes?, four]
    | v6 sixteen => simp [ofBytes?, sixteen]

theorem printWritten (full : a.host.Full) : a.Written Host.mapped a.print := by
  have host := Host.printWritten full
  by_cases range : a.network = true ∨ a.bits ≠ a.host.bits
  · rw [print, if_pos range]
    exact .ranged host range (Text.numeralDigits (by decide) a.bits)
  · obtain ⟨lone, whole⟩ := not_or.mp range
    rw [print, if_neg range, List.append_nil]
    exact .single host (Bool.eq_false_iff.mpr lone) (Decidable.not_not.mp whole)

theorem Written.relaid {left right : List Nat → Bool} {t : Text} (written : a.Written left t)
    (same : ∀ octets, a.host = .v6 octets → left (Host.segments octets) = right (Host.segments octets)) :
    a.Written right t := by
  cases written with
  | single host lone whole => exact .single (host.relaid same) lone whole
  | ranged host range numeral => exact .ranged (host.relaid same) range numeral

theorem standardElsewhere {t : Text} (other : a.host.isCompatible = false) :
    a.Written Host.standard t ↔ a.Written Host.mapped t := by
  have same (octets : Bytes) (six : a.host = .v6 octets) :
      Host.standard (Host.segments octets) = Host.mapped (Host.segments octets) := by
    have uncompatible : Host.compatible (Host.segments octets) = false := by rwa [six] at other
    rw [Host.standard, uncompatible, Bool.or_false]
  exact ⟨fun written => written.relaid same, fun written => written.relaid fun octets six => (same octets six).symm⟩

theorem notStandard {t : Text} (compatible : a.host.isCompatible) (written : a.Written Host.mapped t) :
    ¬a.Written Host.standard t := by
  intro standard
  obtain ⟨host, bits, network⟩ := a
  cases host with
  | v4 => cases compatible
  | v6 octets =>
    have last : Host.standard (Host.segments octets) := Bool.or_eq_true_iff.mpr (.inr compatible)
    have point : '.' ∈ t := by
      cases standard with
      | single host => exact host.pointed last
      | ranged host => exact List.mem_append_left _ (host.pointed last)
    have pointless : '.' ∉ t := by
      cases written with
      | single host => exact host.pointless (Host.compatibleUnmapped compatible)
      | ranged host _ numeral =>
        have digits : '.' ∉ _ := numeral.without (by decide) (by decide)
        simp [host.pointless (Host.compatibleUnmapped compatible), digits]
    exact pointless point

end NetAddress

namespace Row

/-- Every address is decoded as the text that a database prints for it, but for six zeros in front, where the last two
groups are not written with points; the address and its prefix are read back from the text of any. -/
theorem addressesDecoded {s : Scalar} (address : s = .inet ∨ s = .cidr) (index : Nat) (bs : Bytes) :
    ((∃ j, column index (.scalar s) (some bs) = .ok j) ↔ ∃ a, NetAddress.Carries bs a) ∧
    ∀ a, NetAddress.Carries bs a → ∃ t, column index (.scalar s) (some bs) = .ok (.string t) ∧
      (∀ u, a.Written Host.mapped u ↔ u = t) ∧
      ((∀ u, a.Written Host.standard u ↔ u = t) ↔ a.host.isCompatible = false) ∧
      (a.bits ≤ a.host.bits → NetAddress.read? t = some (a.host, a.bits)) := by
  have decoded (j : Json) : column index (.scalar s) (some bs) = .ok j ↔
      ∃ a, NetAddress.Carries bs a ∧ .string a.print = j := by
    have read : scalar? s bs = stringOf NetAddress.print (NetAddress.ofBytes? bs) := by
      rcases address with rfl | rfl <;> rfl
    rw [columnFound rfl, read, stringOf, Option.map_eq_some_iff]
    simp only [NetAddress.ofBytesCarries]
  refine ⟨⟨fun ⟨j, found⟩ => ?_, fun ⟨a, carries⟩ => ?_⟩, fun a carries => ?_⟩
  · obtain ⟨a, carries, -⟩ := (decoded j).mp found
    exact ⟨a, carries⟩
  · exact ⟨_, (decoded _).mpr ⟨a, carries, rfl⟩⟩
  · have written := NetAddress.printWritten carries.full
    have only (u : Text) : a.Written Host.mapped u ↔ u = a.print :=
      ⟨fun other => other.unique written, fun same => same ▸ written⟩
    refine ⟨a.print, (decoded _).mpr ⟨a, carries, rfl⟩, only, ⟨fun standard => ?_, fun other u => ?_⟩,
      written.read carries.full⟩
    · exact Bool.eq_false_iff.mpr fun compatible =>
        NetAddress.notStandard compatible written ((standard a.print).mpr rfl)
    · rw [NetAddress.standardElsewhere other, only]

theorem tiedRunsDecoded :
    let octets : Bytes := [0x20, 0x01, 0x0d, 0xb8, 0, 0, 0, 0, 0, 1, 0, 0, 0, 0, 0, 1]
    let bs := 3 :: 64 :: 1 :: 16 :: octets
    let a : NetAddress := ⟨.v6 octets, 64, true⟩
    let text : Text := "2001:db8::1:0:0:1/64"
    NetAddress.Carries bs a ∧ column 0 (.scalar .cidr) (some bs) = .ok (.string text) ∧
      (∀ u, a.Written Host.standard u ↔ u = text) ∧ a.bits ≤ a.host.bits ∧
      NetAddress.read? text = some (a.host, a.bits) := by
  intro octets bs a text
  have carries : NetAddress.Carries bs a := .v6 rfl
  have fits : a.bits ≤ a.host.bits := by decide
  have printed : column 0 (.scalar .cidr) (some bs) = .ok (.string text) := by decide +kernel
  obtain ⟨t, sent, -, standard, read⟩ := (addressesDecoded (.inr rfl) 0 bs).2 a carries
  obtain rfl : text = t := Json.string.inj (Except.ok.inj (printed.symm.trans sent))
  exact ⟨carries, sent, standard.mpr (by decide), fits, read fits⟩

theorem sixZerosPointless :
    let octets : Bytes := [0, 0, 0, 0, 0, 0, 0, 0, 0, 0, 0, 0, 1, 2, 3, 4]
    let bs := 3 :: 128 :: 0 :: 16 :: octets
    let a : NetAddress := ⟨.v6 octets, 128, false⟩
    NetAddress.Carries bs a ∧ column 0 (.scalar .inet) (some bs) = .ok (.string "::102:304") ∧
      a.Written Host.standard "::1.2.3.4" ∧ ¬a.Written Host.standard "::102:304" := by
  intro octets bs a
  have run : Host.LongestRun (List.replicate 6 0 ++ 0x102 :: [0x304]) [] 6 (0x102 :: [0x304]) :=
    Host.leadingRun (by decide) (by decide)
  have host : a.host.Written Host.standard "::1.2.3.4" :=
    .v6 (.shortened run (by decide) .done (Host.lastPieces 1 2 3 4))
  have written : a.Written Host.standard "::1.2.3.4" := .single host rfl rfl
  exact ⟨.v6 rfl, by decide +kernel, written, fun other => absurd (other.unique written) (by decide)⟩

end Row
end TableGateway
