import TableGateway.Proofs.AddressText
import TableGateway.Proofs.CarriedText

/-! A reader of network addresses. Groups may have their letters of either size and zeros in front, the last two of
them may be written with points, and two colons stand for as many zeros as are missing. From the text that is written
for an address it gets the address and its prefix, whichever groups have points. -/
namespace TableGateway

namespace Text

def addDigit? (base n : Nat) (c : Char) : Option Nat :=
  (Hex.value? c).bind fun d => if d < base then some (base * n + d) else none

def number? (base width : Nat) (t : Text) : Option Nat :=
  if t = [] ∨ width < t.length then none else t.foldlM (addDigit? base) 0

variable {base n : Nat} {t : Text}

theorem Numeral.folded (numeral : Numeral base n t) (hex : base ≤ 16) : t.foldlM (addDigit? base) 0 = some n := by
  have step {n d : Nat} (single : d < base) : addDigit? base n (Nat.digitChar d) = some (base * n + d) := by
    have value : Hex.value? (Nat.digitChar d) = some d := Hex.valueDigit d (single.trans_le hex)
    rw [addDigit?, value, Option.bind_some, if_pos single]
  induction numeral with
  | digit single => simp [step single]
  | longer front positive single ih => simp [ih, step single]

theorem Numeral.read {width : Nat} (numeral : Numeral base n t) (several : 1 < base) (hex : base ≤ 16)
    (some : 0 < width) (fits : n < base ^ width) : number? base width t = Option.some n := by
  have short : t.length ≤ width := by
    rw [numeral.text several]
    exact Nat.toDigits_length base n width some fits
  rw [number?, if_neg (by simp [numeral.filled, short]), numeral.folded hex]

end Text

namespace Host
open Text (Numeral number?)

def Full : Host → Prop
  | .v4 octets => octets.length = 4
  | .v6 octets => octets.length = 16

def dotted? (t : Text) : Option (List Nat) :=
  ((t.splitOn '.').mapM (number? 10 3)).filter fun ns => ns.length == 4 && ns.all (· < 256)

def pieces? : List Text → Option (List Nat)
  | [] => some []
  | [t] =>
    if '.' ∈ t then (dotted? t).map fun ns => segments (ns.map UInt8.ofNat) else (number? 16 4 t).map fun g => [g]
  | t :: ts => do
    let g ← number? 16 4 t
    let gs ← pieces? ts
    some (g :: gs)

def gap? : Text → Option (Text × Text)
  | [] => none
  | ':' :: ':' :: rest => some ([], rest)
  | c :: rest => (gap? rest).map fun (front, back) => (c :: front, back)

def part? (read : List Text → Option (List Nat)) (t : Text) : Option (List Nat) :=
  if t = [] then some [] else read (t.splitOn ':')

def groups? (t : Text) : Option (List Nat) :=
  match gap? t with
  | none => (part? pieces? t).filter fun gs => gs.length == 8
  | some (front, back) => do
    let before ← part? (List.mapM (number? 16 4)) front
    let after ← part? pieces? back
    let length := before.length + after.length
    if length < 8 then some (before ++ (List.replicate (8 - length) 0 ++ after)) else none

def read? (t : Text) : Option Host :=
  if ':' ∈ t then (groups? t).map fun gs => .v6 (gs.flatMap (Bytes.ofNat 2))
  else (dotted? t).map fun ns => .v4 (ns.map UInt8.ofNat)

variable {dotted : Bool} {ns gs : List Nat} {t : Text} {ts : List Text}

theorem eachRead (each : List.Forall₂ (Numeral 10) ns ts) (small : ∀ n ∈ ns, n < 256) :
    ts.mapM (number? 10 3) = some ns := by
  induction each with
  | nil => rfl
  | cons numeral _ ih =>
    obtain ⟨first, others⟩ := List.forall_mem_cons.mp small
    simp [numeral.read (by decide) (by decide) (by decide) (show _ < 10 ^ 3 by omega), ih others]

theorem Dotted.read (numbers : Dotted ns t) (four : ns.length = 4) (small : ∀ n ∈ ns, n < 256) :
    dotted? t = some ns := by
  cases numbers with
  | @numbers ts each =>
    have filled : ts ≠ [] := by
      rintro rfl
      cases each
      cases four
    rw [dotted?, List.splitOn_intercalate '.' (eachWithout each (by decide)) filled, eachRead each small]
    simpa [four] using small

theorem groupRead {g : Nat} (numeral : Numeral 16 g t) (small : g < 65536) : number? 16 4 t = some g :=
  numeral.read (by decide) (by decide) (by decide) small

theorem Pieces.readPlain (pieces : Pieces false gs ts) (small : ∀ g ∈ gs, g < 65536) :
    ts.mapM (number? 16 4) = some gs := by
  generalize same : false = dotted at pieces
  induction pieces with
  | done => rfl
  | group numeral _ ih =>
    obtain ⟨first, others⟩ := List.forall_mem_cons.mp small
    simp [groupRead numeral first, ih others same]
  | dotted => cases same

theorem Pieces.read (pieces : Pieces dotted gs ts) (small : ∀ g ∈ gs, g < 65536) : pieces? ts = some gs := by
  induction pieces with
  | done => rfl
  | @group _ g gs t ts numeral behind ih =>
    obtain ⟨first, others⟩ := List.forall_mem_cons.mp small
    have group := groupRead numeral first
    have rest := ih others
    cases ts with
    | nil =>
      have none : gs = [] := by simpa [pieces?, eq_comm] using rest
      rw [pieces?, if_neg (numeral.without (by decide) (by decide)), group, none]
      rfl
    | cons => simp [pieces?, group, rest]
  | @dotted high low t numbers =>
    have highSmall : high < 65536 := small high (by simp)
    have lowSmall : low < 65536 := small low (by simp)
    have read := numbers.read rfl (by simp; omega)
    simp [pieces?, numbers.pointed, read, segments]
    omega

theorem gapPiece (plain : ':' ∉ t) (rest : Text) : gap? (t ++ rest) = (gap? rest).map fun p => (t ++ p.1, p.2) := by
  induction t with
  | nil => simp
  | cons c t ih =>
    have other := List.ne_of_not_mem_cons plain
    have behind := List.not_mem_of_not_mem_cons plain
    have past : gap? (c :: (t ++ rest)) = (gap? (t ++ rest)).map fun p => (c :: p.1, p.2) := by
      rw [gap?]
      rintro u rfl
      exact absurd rfl other
    rw [List.cons_append, past, ih behind, Option.map_map]
    rfl

theorem gapColon {c : Char} (other : c ≠ ':') (rest : Text) :
    gap? (':' :: c :: rest) = (gap? (c :: rest)).map fun p => (':' :: p.1, p.2) := by
  rw [gap?]
  rintro u - same
  exact other (List.cons.inj same).1

theorem gapJoined (clean : ∀ t ∈ ts, t ≠ [] ∧ ':' ∉ t) (rest : Text) :
    gap? ([':'].intercalate ts ++ rest) = (gap? rest).map fun p => ([':'].intercalate ts ++ p.1, p.2) := by
  induction ts with
  | nil => simp
  | cons t ts ih =>
    obtain ⟨⟨-, plain⟩, others⟩ := List.forall_mem_cons.mp clean
    have behind := ih others
    cases ts with
    | nil => rw [List.intercalate_singleton, gapPiece plain]
    | cons u ts =>
      obtain ⟨filled, plainToo⟩ := others u List.mem_cons_self
      obtain ⟨c, v, rfl⟩ := List.exists_cons_of_ne_nil filled
      rw [List.intercalate_cons_cons_left, List.cons_append] at behind
      rw [List.intercalate_cons_cons, List.intercalate_cons_cons_left]
      simp only [List.append_assoc, List.cons_append, List.nil_append]
      rw [gapPiece plain, gapColon (List.ne_of_not_mem_cons plainToo).symm, behind]
      simp [Function.comp_def]

theorem partRead {read : List Text → Option (List Nat)} (clean : ∀ t ∈ ts, t ≠ [] ∧ ':' ∉ t)
    (found : read ts = some gs) (empty : ts = [] → gs = []) : part? read ([':'].intercalate ts) = some gs := by
  cases ts with
  | nil => rw [List.intercalate_nil, part?, if_pos rfl, empty rfl]
  | cons t ts =>
    have filled : [':'].intercalate (t :: ts) ≠ [] := by
      obtain ⟨c, u, rfl⟩ := List.exists_cons_of_ne_nil (clean t List.mem_cons_self).1
      rw [List.intercalate_cons_cons_left]
      exact List.cons_ne_nil _ _
    rw [part?, if_neg filled, List.splitOn_intercalate ':' (fun t member => (clean t member).2) (List.cons_ne_nil t ts),
      found]

theorem Pieces.parted (pieces : Pieces dotted gs ts) : (∀ t ∈ ts, t ≠ [] ∧ ':' ∉ t) ∧ (ts = [] → gs = []) := by
  refine ⟨fun t member => ?_, ?_⟩
  · obtain ⟨filled, colonless, -⟩ := pieces.clean t member
    exact ⟨filled, colonless⟩
  · rintro rfl
    cases pieces
    rfl

theorem Grouped.read (grouped : Grouped dotted gs t) (eight : gs.length = 8) (small : ∀ g ∈ gs, g < 65536) :
    groups? t = some gs := by
  cases grouped with
  | @whole ts _ pieces =>
    obtain ⟨clean, empty⟩ := pieces.parted
    have gapless : gap? ([':'].intercalate ts) = none := by
      have joined := gapJoined clean []
      rwa [List.append_nil] at joined
    simp [groups?, gapless, partRead clean (pieces.read small) empty, eight]
  | @shortened before after zeros fs bs run several front back =>
    obtain ⟨cleanFront, emptyFront⟩ := front.parted
    obtain ⟨cleanBack, emptyBack⟩ := back.parted
    have whole := run.whole
    subst whole
    have gap : gap? ([':'].intercalate fs ++ ':' :: ':' :: [':'].intercalate bs) =
        some ([':'].intercalate fs, [':'].intercalate bs) := by
      rw [gapJoined cleanFront]
      simp [gap?]
    have readFront := partRead cleanFront (front.readPlain fun g member => small g (by simp [member])) emptyFront
    have readBack := partRead cleanBack (back.read fun g member => small g (by simp [member])) emptyBack
    -- eight groups in all, so the text tells how many zeros it leaves out
    have left : 8 - (before.length + after.length) = zeros := by
      simp at eight
      omega
    have missing : before.length + after.length < 8 := by omega
    simp [groups?, gap, readFront, readBack, missing, left]

theorem segmentsSmall (octets : Bytes) : ∀ g ∈ segments octets, g < 65536 := by
  fun_induction segments octets with
  | case1 high low rest ih =>
    have highByte : high.toNat < 256 := high.toNat_lt
    have lowByte : low.toNat < 256 := low.toNat_lt
    exact List.forall_mem_cons.mpr ⟨by omega, ih⟩
  | case2 => exact nofun

theorem segmentsLength (octets : Bytes) : (segments octets).length = octets.length / 2 := by
  induction octets using List.twoStepInduction with
  | nil => rfl
  | singleton => simp [segments]
  | cons_cons high low rest ih =>
    simp only [segments, List.length_cons, ih]
    omega

theorem segmentsBytes {octets : Bytes} (even : octets.length % 2 = 0) :
    (segments octets).flatMap (Bytes.ofNat 2) = octets := by
  induction octets using List.twoStepInduction with
  | nil => rfl
  | singleton => cases even
  | cons_cons high low rest ih =>
    have highByte : high.toNat < 256 := high.toNat_lt
    have lowByte : low.toNat < 256 := low.toNat_lt
    have upper : (256 * high.toNat + low.toNat) / 256 = high.toNat := by omega
    have wrapped : (UInt8.ofNat (256 * high.toNat + low.toNat)).toNat = (256 * high.toNat + low.toNat) % 256 :=
      UInt8.toNat_ofNat
    have lower : UInt8.ofNat (256 * high.toNat + low.toNat) = low := UInt8.toNat_inj.mp (by omega)
    have pair : Bytes.ofNat 2 (256 * high.toNat + low.toNat) = [high, low] := by
      simp [Bytes.ofNat, upper, lower]
    rw [segments, List.flatMap_cons, pair, ih (by simp only [List.length_cons] at even; omega)]
    rfl

theorem Written.read {layout : List Nat → Bool} {h : Host} (written : Written layout h t) (full : h.Full) :
    read? t = some h := by
  cases written with
  | @v4 octets t numbers =>
    have small : ∀ n ∈ octets.map UInt8.toNat, n < 256 := List.forall_mem_map.mpr fun b _ => b.toNat_lt
    have read := numbers.read (by rwa [List.length_map]) small
    rw [read?, if_neg (numbers.without (by decide) (by decide)), read]
    simp [Function.comp_def]
  | @v6 octets t groups =>
    have sixteen : octets.length = 16 := full
    have eight : (segments octets).length = 8 := by rw [segmentsLength, sixteen]
    have read := groups.read eight (segmentsSmall octets)
    rw [read?, if_pos (groups.colon (by omega)), read, Option.map_some, segmentsBytes (by rw [sixteen])]

end Host

namespace NetAddress
open Text (number?)

def read? (t : Text) : Option (Host × Nat) :=
  match t.splitOn '/' with
  | [host] => (Host.read? host).map fun h => (h, h.bits)
  | [host, bits] => do
    let h ← Host.read? host
    let n ← number? 10 3 bits
    if n ≤ h.bits then some (h, n) else none
  | _ => none

theorem Written.read {layout : List Nat → Bool} {a : NetAddress} {t : Text} (written : a.Written layout t)
    (full : a.host.Full) (fits : a.bits ≤ a.host.bits) : read? t = some (a.host, a.bits) := by
  cases written with
  | single host _ whole =>
    have split : t.splitOn '/' = [t] := by
      have joined := List.splitOn_intercalate '/' (List.forall_mem_singleton.mpr host.slashless) (List.cons_ne_nil t [])
      rwa [List.intercalate_singleton] at joined
    simp [read?, split, host.read full, whole]
  | @ranged t b host range numeral =>
    have slashless : ∀ part ∈ [t, b], '/' ∉ part :=
      List.forall_mem_cons.mpr ⟨host.slashless, List.forall_mem_singleton.mpr (numeral.without (by decide) (by decide))⟩
    have split : (t ++ '/' :: b).splitOn '/' = [t, b] := by
      have joined := List.splitOn_intercalate '/' slashless (List.cons_ne_nil t [b])
      rwa [List.intercalate_cons_cons, List.intercalate_singleton, List.append_assoc] at joined
    have most : a.host.bits ≤ 128 := by cases a.host <;> simp [Host.bits]
    have bits := numeral.read (by decide) (by decide) (by decide) (show a.bits < 10 ^ 3 by omega)
    simp [read?, split, host.read full, bits, fits]

end NetAddress
end TableGateway
