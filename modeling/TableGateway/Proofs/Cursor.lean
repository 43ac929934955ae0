import Mathlib.Control.Monad.Basic
import TableGateway.Proofs.ByteScan
import TableGateway.Query

/-! Renumbering on bytes. A place goes through the bytes of a statement, what has been passed is cut out and copied
when a number is written, and each cut and each sum is checked. The result is that of scanning the text. -/
namespace TableGateway
open Placeholder

inductive Stop
  | cut (low high : Nat)
  | stuck (place : Nat)
  | sum (n : Nat)
  deriving DecidableEq, Repr

structure Cursor where
  out : Bytes
  copied : Nat
  place : Nat

namespace Placeholder

def Piece.excess? (offset : Nat) : Piece → Option Nat
  | .copied _ => none
  | .number digits =>
    if Text.toNat digits < 2 ^ 64 ∧ 2 ^ 64 ≤ Text.toNat digits + offset then some (Text.toNat digits) else none

def excess? (offset : Nat) (inName : Bool) (t : Text) : Option Nat := (scan inName t).findSome? (Piece.excess? offset)

theorem Piece.shiftExcess {p : Piece} {offset n : Nat} (great : p.excess? offset = some n) : p.shift offset = none := by
  cases p with
  | copied => cases great
  | number digits =>
    obtain ⟨⟨small, excess⟩, -⟩ := Option.ite_none_right_eq_some.mp great
    rw [shift, if_pos small, Word.sumOverflows excess]
    rfl

end Placeholder

namespace Cursor
open Bytes (char ofText literalLength delimiterLength? quotedLength)

def isBoundary (bs : Bytes) (place : Nat) : Bool :=
  match bs[place]? with
  | some b => place = 0 || !Bytes.isContinuation b
  | none => place = bs.length

def slice (bs : Bytes) (low high : Nat) : Except Stop Bytes :=
  if low ≤ high ∧ isBoundary bs low ∧ isBoundary bs high then .ok ((bs.drop low).take (high - low))
  else .error (.cut low high)

def move (s : Cursor) (n : Nat) : Cursor := { s with place := s.place + n }

def sign (offset : Nat) (bs behind : Bytes) (s : Cursor) : Except Stop Cursor :=
  let stop := s.place + 1 + (behind.takeWhile fun b => (char b).isDigit).length
  if s.place + 1 < stop then do
    let digits ← slice bs (s.place + 1) stop
    let n := Text.toNat (digits.map char)
    if n < 2 ^ 64 then
      let passed ← slice bs s.copied s.place
      if n + offset < 2 ^ 64 then
        .ok { out := s.out ++ passed ++ ofText ('$' :: Text.ofNat (n + offset)), copied := stop, place := stop }
      else .error (.sum n)
    else .ok { s with place := stop }
  else
    match delimiterLength? behind with
    | some length => do
      let mark ← slice bs s.place (s.place + 1 + length)
      let rest ← slice bs (s.place + 1 + length) bs.length
      .ok (s.move (1 + length + quotedLength mark rest))
    | none => .ok (s.move 1)

def step (offset : Nat) (bs : Bytes) (s : Cursor) : Except Stop Cursor :=
  match bs.drop s.place with
  | [] => .error (.cut s.place bs.length)
  | b :: behind =>
    if char b = '\'' then .ok (s.move (1 + literalLength behind))
    else if char b = '$' then
      if 0 < s.place ∧ bs[s.place - 1]?.any (fun b => isName (char b)) then .ok (s.move 1)
      else s.sign offset bs behind
    else .ok (s.move 1)

def run (offset : Nat) (bs : Bytes) (s : Cursor) : Except Stop Bytes :=
  if s.place < bs.length then
    match step offset bs s with
    | .ok next => if s.place < next.place then run offset bs next else .error (.stuck s.place)
    | .error stop => .error stop
  else do
    let passed ← slice bs s.copied bs.length
    .ok (s.out ++ passed)
  termination_by bs.length - s.place

def shift (offset : Nat) (bs : Bytes) : Except Stop Bytes :=
  if offset = 0 then .ok bs else run offset bs ⟨[], 0, 0⟩

variable {offset : Nat} {bs : Bytes} {s : Cursor}

theorem boundaryText (before rest : Text) : isBoundary (ofText (before ++ rest)) (ofText before).length := by
  have byte : (ofText (before ++ rest))[(ofText before).length]? = (ofText rest).head? := by
    rw [Bytes.ofTextAppend, List.getElem?_append_right (Nat.le_refl _), Nat.sub_self, List.head?_eq_getElem?]
  rw [isBoundary, byte]
  cases first : (ofText rest).head? with
  | some b => simp [Bytes.headBegins rest b first]
  | none => simp [Bytes.ofTextAppend, List.head?_eq_none_iff.mp first]

theorem sliceText (before passed rest : Text) :
    slice (ofText (before ++ passed ++ rest)) (ofText before).length (ofText (before ++ passed)).length =
      .ok (ofText passed) := by
  have low : isBoundary (ofText (before ++ passed ++ rest)) (ofText before).length := by
    rw [List.append_assoc]
    exact boundaryText before (passed ++ rest)
  have high := boundaryText (before ++ passed) rest
  have order : (ofText before).length ≤ (ofText (before ++ passed)).length := by
    rw [Bytes.ofTextAppend, List.length_append]
    omega
  rw [slice, if_pos ⟨order, low, high⟩]
  simp [Bytes.ofTextAppend]

structure Reached (before done : Text) (s : Cursor) : Prop where
  place : s.place = (ofText before).length
  passed : ∃ copied passed, before = copied ++ passed ∧ s.copied = (ofText copied).length ∧
    s.out ++ ofText passed = ofText done

variable {before done rest : Text}

theorem Reached.move (reached : Reached before done s) (t : Text) :
    Reached (before ++ t) (done ++ t) (s.move (ofText t).length) := by
  obtain ⟨copied, passed, rfl, start, output⟩ := reached.passed
  have place : (s.move (ofText t).length).place = (ofText (copied ++ passed ++ t)).length := by
    simp [Cursor.move, reached.place, Bytes.ofTextAppend, Nat.add_assoc]
  refine ⟨place, copied, passed ++ t, List.append_assoc .., start, ?_⟩
  rw [Bytes.ofTextAppend, Bytes.ofTextAppend, ← output, List.append_assoc]
  rfl

theorem Reached.slice (reached : Reached before done s) (rest : Text) :
    ∃ passed, slice (ofText (before ++ rest)) s.copied s.place = .ok passed ∧ s.out ++ passed = ofText done := by
  obtain ⟨copied, passed, rfl, start, output⟩ := reached.passed
  exact ⟨ofText passed, by rw [start, reached.place, sliceText], output⟩

theorem Reached.drop (reached : Reached before done s) (rest : Text) :
    (ofText (before ++ rest)).drop s.place = ofText rest := by
  rw [reached.place, Bytes.ofTextAppend, List.drop_left]

theorem Reached.inside (reached : Reached before done s) {c : Char} :
    s.place < (ofText (before ++ c :: rest)).length := by
  have size := c.utf8Size_pos
  rw [reached.place, Bytes.ofTextAppend, Bytes.ofTextCons, List.length_append, List.length_append,
    String.length_utf8EncodeChar]
  omega

theorem Reached.behind (reached : Reached before done s) (rest : Text) :
    (0 < s.place ∧ (ofText (before ++ rest))[s.place - 1]?.any fun b => isName (char b)) ↔
      endsInName before = true := by
  have upper : ∀ c, 127 < Char.toNat c → isName c := fun c high => by simp [isName, high]
  rw [endsInName, ← Bytes.lastText upper, List.getLast?_eq_getElem?, reached.place, Bytes.ofTextAppend]
  cases ofText before with
  | nil => simp
  | cons b bs =>
    rw [List.getElem?_append_left (by simp)]
    simp

theorem runStep {next : Cursor} (taken : step offset bs s = .ok next) (inside : s.place < bs.length)
    (later : s.place < next.place) : run offset bs s = run offset bs next := by
  rw [run, if_pos inside, taken]
  exact if_pos later

theorem runStops {stop : Stop} (stopped : step offset bs s = .error stop) (inside : s.place < bs.length) :
    run offset bs s = .error stop := by
  rw [run, if_pos inside, stopped]

theorem stepQuote (reached : Reached before done s) (rest : Text) :
    step offset (ofText (before ++ '\'' :: rest)) s =
      .ok (s.move (ofText ('\'' :: (literal rest).1)).length) := by
  have quote : char 39 = '\'' := by decide
  have spelled : ∀ t, ofText ('\'' :: t) = 39 :: ofText t := fun t => rfl
  rw [step, reached.drop, spelled, spelled, List.length_cons, ← Bytes.literalLengthText]
  simp [quote, Nat.add_comm]

theorem stepDollar (offset : Nat) (reached : Reached before done s) (rest : Text) :
    step offset (ofText (before ++ '$' :: rest)) s =
      if endsInName before then .ok (s.move 1)
      else s.sign offset (ofText (before ++ '$' :: rest)) (ofText rest) := by
  have dollar : char 36 = '$' := by decide
  have spelled : ofText ('$' :: rest) = 36 :: ofText rest := rfl
  rw [step, reached.drop, spelled]
  simp [dollar, ← reached.behind ('$' :: rest), spelled, Bytes.ofTextAppend]

theorem moveMove (s : Cursor) (m n : Nat) : (s.move m).move n = s.move (m + n) := by
  simp [move, Nat.add_assoc]

theorem runPlain {word later : Bytes} (quoteless : ∀ b ∈ word, char b ≠ '\'') (signless : ∀ b ∈ word, char b ≠ '$')
    (here : bs.drop s.place = word ++ later) : run offset bs s = run offset bs (s.move word.length) := by
  induction word generalizing s with
  | nil => rfl
  | cons b word ih =>
    obtain ⟨quote, quoteless⟩ := List.forall_mem_cons.mp quoteless
    obtain ⟨sign, signless⟩ := List.forall_mem_cons.mp signless
    have taken : step offset bs s = .ok (s.move 1) := by
      rw [step, here]
      simp only [List.cons_append, if_neg quote, if_neg sign]
    have inside : s.place < bs.length := by
      have size := congrArg List.length here
      simp at size
      omega
    have next : bs.drop (s.move 1).place = word ++ later := by
      rw [move, ← List.drop_drop, here]
      rfl
    rw [runStep taken inside (Nat.lt_succ_self _), ih quoteless signless next, moveMove, List.length_cons,
      Nat.add_comm]

theorem signDigits (offset : Nat) (reached : Reached before done s) {digits : Text} (all : ∀ c ∈ digits, c.isDigit)
    (filled : digits ≠ []) (stop : ∀ c ∈ rest.head?, ¬ c.isDigit) :
    ∃ passed, s.out ++ passed = ofText done ∧
      s.sign offset (ofText (before ++ '$' :: (digits ++ rest))) (ofText (digits ++ rest)) =
        if Text.toNat digits < 2 ^ 64 then
          if Text.toNat digits + offset < 2 ^ 64 then
            .ok { out := s.out ++ passed ++ ofText ('$' :: Text.ofNat (Text.toNat digits + offset))
                  copied := (ofText (before ++ '$' :: digits)).length
                  place := (ofText (before ++ '$' :: digits)).length }
          else .error (.sum (Text.toNat digits))
        else .ok { s with place := (ofText (before ++ '$' :: digits)).length } := by
  have ascii : ∀ c ∈ digits, c.toNat ≤ 127 := fun c member => Bytes.asciiDigit c (all c member)
  have read : (ofText (digits ++ rest)).takeWhile (fun b => (char b).isDigit) = ofText digits := by
    rw [Bytes.digitsText, spanDigitsAppend all stop]
  have whole : before ++ '$' :: (digits ++ rest) = before ++ ['$'] ++ digits ++ rest := by simp
  have passing : before ++ '$' :: digits = before ++ ['$'] ++ digits := by simp
  have low : s.place + 1 = (ofText (before ++ ['$'])).length := by
    rw [reached.place, Bytes.ofTextAppend, List.length_append]
    rfl
  have high : (ofText (before ++ ['$'])).length + (ofText digits).length =
      (ofText (before ++ ['$'] ++ digits)).length := by
    rw [Bytes.ofTextAppend _ digits, List.length_append]
  have longer : (ofText (before ++ ['$'])).length < (ofText (before ++ ['$'] ++ digits)).length := by
    have size := List.length_pos_iff.mpr filled
    rw [← high, Bytes.lengthText ascii]
    omega
  obtain ⟨passed, cut, output⟩ := reached.slice ('$' :: (digits ++ rest))
  refine ⟨passed, output, ?_⟩
  simp only [sign, read, low, high, if_pos longer, passing]
  rw [cut, whole, sliceText]
  simp only [bind, Except.bind, Bytes.mapCharText ascii]

theorem signNumber (offset : Nat) (reached : Reached before done s) {digits : Text} (all : ∀ c ∈ digits, c.isDigit)
    (filled : digits ≠ []) (stop : ∀ c ∈ rest.head?, ¬ c.isDigit) :
    match (Piece.number digits).excess? offset with
    | some n => s.sign offset (ofText (before ++ '$' :: (digits ++ rest))) (ofText (digits ++ rest)) = .error (.sum n)
    | none => ∃ t next, (Piece.number digits).shift offset = some t ∧
      s.sign offset (ofText (before ++ '$' :: (digits ++ rest))) (ofText (digits ++ rest)) = .ok next ∧
        Reached (before ++ '$' :: digits) (done ++ t) next := by
  obtain ⟨passed, output, read⟩ := signDigits offset reached all filled stop
  rw [read]
  by_cases small : Text.toNat digits < 2 ^ 64
  · by_cases fits : Text.toNat digits + offset < 2 ^ 64
    · have none : (Piece.number digits).excess? offset = none := if_neg fun both => Nat.not_le.mpr fits both.2
      simp only [none, if_pos small, if_pos fits]
      refine ⟨_, _, Piece.shiftFits fits, rfl, rfl, before ++ '$' :: digits, [], by simp, rfl, ?_⟩
      rw [output, Bytes.ofTextNil, List.append_nil]
      exact (Bytes.ofTextAppend _ _).symm
    · have some : (Piece.number digits).excess? offset = some (Text.toNat digits) :=
        if_pos ⟨small, Nat.not_lt.mp fits⟩
      simp only [some, if_pos small, if_neg fits]
  · have none : (Piece.number digits).excess? offset = none := if_neg fun both => small both.1
    have moved := reached.move ('$' :: digits)
    simp only [none, if_neg small]
    refine ⟨_, _, if_neg small, rfl, ?_⟩
    rw [Bytes.ofTextAppend, List.length_append, ← reached.place]
    exact moved

theorem signLength (t : Text) : (ofText ('$' :: t)).length = 1 + (ofText t).length := Nat.add_comm _ _

theorem signDollar (reached : Reached before done s) {name : Text} (tagName : TagName name) (rest : Text) :
    s.sign offset (ofText (before ++ '$' :: (name ++ '$' :: rest))) (ofText (name ++ '$' :: rest)) =
      .ok (s.move (ofText ('$' :: (name ++ '$' :: (through ('$' :: (name ++ ['$'])) rest).1))).length) := by
  have digitless : (ofText (name ++ '$' :: rest)).takeWhile (fun b => (char b).isDigit) = [] := by
    rw [Bytes.digitsText, spanNoDigits.mpr tagName.digitless, Bytes.ofTextNil]
  have delimiter : delimiterLength? (ofText (name ++ '$' :: rest)) = some (ofText (name ++ ['$'])).length := by
    rw [Bytes.delimiterLengthText, tagRead tagName]
    rfl
  have ascii : ∀ c ∈ '$' :: (name ++ ['$']), c.toNat ≤ 127 :=
    List.forall_mem_cons.mpr ⟨by decide, Bytes.tagAscii tagName⟩
  have whole : before ++ '$' :: (name ++ '$' :: rest) = before ++ '$' :: (name ++ ['$']) ++ rest := by simp
  have behind : s.place + 1 + (ofText (name ++ ['$'])).length =
      (ofText (before ++ '$' :: (name ++ ['$']))).length := by
    rw [reached.place, Bytes.ofTextAppend before, List.length_append, signLength, Nat.add_assoc]
  have mark := sliceText before ('$' :: (name ++ ['$'])) rest
  have body := sliceText (before ++ '$' :: (name ++ ['$'])) rest []
  rw [List.append_nil] at body
  have far : 1 + (ofText (name ++ ['$'])).length +
      quotedLength (ofText ('$' :: (name ++ ['$']))) (ofText rest) =
      (ofText ('$' :: (name ++ '$' :: (through ('$' :: (name ++ ['$'])) rest).1))).length := by
    have passed : '$' :: (name ++ '$' :: (through ('$' :: (name ++ ['$'])) rest).1) =
        '$' :: (name ++ ['$']) ++ (through ('$' :: (name ++ ['$'])) rest).1 := by simp
    rw [Bytes.quotedLengthText (List.cons_ne_nil _ _) ascii, passed, Bytes.ofTextAppend ('$' :: (name ++ ['$'])),
      List.length_append, signLength]
  simp only [sign, digitless, delimiter, behind]
  rw [whole, reached.place, mark, body]
  simp [bind, Except.bind, far]

theorem signAlone (stop : ∀ c ∈ rest.head?, ¬ c.isDigit) (tagless : tag? rest = none) :
    s.sign offset bs (ofText rest) = .ok (s.move (ofText ['$']).length) := by
  have digitless : (ofText rest).takeWhile (fun b => (char b).isDigit) = [] := by
    rw [Bytes.digitsText, spanNoDigits.mpr stop, Bytes.ofTextNil]
  have delimiter : delimiterLength? (ofText rest) = none := by
    rw [Bytes.delimiterLengthText, tagless]
    rfl
  simp [sign, digitless, delimiter]
  rfl

theorem runReached {next : Cursor} {c : Char} {t : Text} (reached : Reached before done s)
    (taken : step offset (ofText (before ++ c :: rest)) s = .ok next) {later : Text}
    (there : Reached (before ++ c :: t) later next) :
    run offset (ofText (before ++ c :: rest)) s = run offset (ofText (before ++ c :: rest)) next := by
  have inside : s.place < (ofText (before ++ c :: t)).length := reached.inside
  rw [← there.place] at inside
  exact runStep taken reached.inside inside

theorem runTaken (offset : Nat) {next : Bool} {t left : Text} {p : Piece}
    (taken : Takes (endsInName before) t p next left) (reached : Reached before done s) :
    match p.excess? offset with
    | some n => run offset (ofText (before ++ t)) s = .error (.sum n)
    | none => ∃ u there, p.shift offset = some u ∧
      run offset (ofText (before ++ t)) s = run offset (ofText (before ++ t)) there ∧
      Reached (before ++ p.text) (done ++ u) there := by
  generalize within : endsInName before = inName at taken
  cases taken with
  | quote _ rest => exact ⟨_, _, rfl, runReached reached (stepQuote reached rest) (reached.move _), reached.move _⟩
  | @number digits _ all filled stop =>
    have step := stepDollar offset reached (digits ++ left)
    have number := signNumber offset reached all filled stop
    simp only [within] at step
    split at number
    case h_1 n great =>
      rw [number] at step
      exact runStops step reached.inside
    case h_2 fits =>
      obtain ⟨u, there, shifted, taken, moved⟩ := number
      rw [taken] at step
      exact ⟨u, there, shifted, runReached reached step moved, moved⟩
  | @dollar name tagName rest =>
    have step := stepDollar offset reached (name ++ '$' :: rest)
    rw [within, signDollar reached tagName rest] at step
    exact ⟨_, _, rfl, runReached reached step (reached.move _), reached.move _⟩
  | sign stop tagless =>
    have step := stepDollar offset reached left
    rw [within, signAlone stop tagless] at step
    exact ⟨_, _, rfl, runReached reached step (reached.move _), reached.move _⟩
  | @plain _ c _ quote inside =>
    by_cases sign : c = '$'
    · subst sign
      have step := stepDollar offset reached left
      rw [within, inside rfl] at step
      exact ⟨_, _, rfl, runReached reached step (reached.move ['$']), reached.move _⟩
    · -- The bytes of one character are passed one at a time.
      have here := reached.drop (c :: left)
      have moved := reached.move [c]
      rw [Bytes.ofTextCons] at here
      rw [Bytes.ofTextCons, Bytes.ofTextNil, List.append_nil] at moved
      exact ⟨_, _, rfl, runPlain (Bytes.otherByte (by decide) quote) (Bytes.otherByte (by decide) sign) here, moved⟩

theorem excessUnmoved (inName : Bool) (t : Text) : excess? 0 inName t = none := by
  refine List.findSome?_eq_none_iff.mpr fun p _ => ?_
  cases p with
  | copied => rfl
  | number digits => exact if_neg fun both => Nat.not_le.mpr both.1 both.2

theorem excessTaken {inName next : Bool} {t left : Text} {p : Piece} (taken : Takes inName t p next left) :
    excess? offset inName t = (p.excess? offset).or (excess? offset next left) := by
  rw [excess?, scanTaken taken, List.findSome?_cons]
  cases p.excess? offset <;> rfl

theorem runText {inName : Bool} {t : Text} (reached : Reached before done s)
    (behind : t ≠ [] → endsInName before = inName) :
    match excess? offset inName t with
    | some n => run offset (ofText (before ++ t)) s = .error (.sum n) ∧ shiftFrom offset inName t = none
    | none => ∃ u, shiftFrom offset inName t = some u ∧
      run offset (ofText (before ++ t)) s = .ok (ofText (done ++ u)) := by
  -- The flag is only known while text is left, since an open literal goes on to the end whatever stands there.
  fun_induction scan inName t generalizing before done s with
  | case1 inName =>
    obtain ⟨passed, cut, output⟩ := reached.slice []
    have none : excess? offset inName [] = none := by simp [excess?, scan]
    rw [List.append_nil, reached.place] at cut
    rw [none]
    refine ⟨[], shiftFromNil offset inName, ?_⟩
    rw [List.append_nil, run, if_neg (reached.place ▸ Nat.lt_irrefl _), cut, List.append_nil, ← output]
    rfl
  | case2 inName c rest ih =>
    have taken := pieceTakes inName c rest
    obtain rfl := behind (List.cons_ne_nil _ _)
    have piece := runTaken offset taken reached
    rw [excessTaken taken, shiftFromTaken taken]
    split at piece
    case h_1 n great =>
      rw [great, Piece.shiftExcess great]
      exact ⟨piece, rfl⟩
    case h_2 fits =>
      obtain ⟨t, there, shifted, same, moved⟩ := piece
      have whole := congrArg (before ++ ·) taken.whole
      simp only [← List.append_assoc] at whole
      have later := ih moved taken.behind
      rw [same, whole, fits, Option.none_or, shifted, Option.bind_some]
      split at later
      case h_1 n great =>
        rw [later.2]
        exact ⟨later.1, rfl⟩
      case h_2 =>
        obtain ⟨u, last, output⟩ := later
        rw [last]
        exact ⟨t ++ u, rfl, by rw [output, List.append_assoc]⟩

/-- Every cut is between two characters and the place always moves on, so that the bytes of any text are gone through to
the end and come out as the shifted text. The one thing that stops this is a number of at most 64 bits with which
`offset` has a sum of more: there the bytes and the text both end without a result. -/
theorem onlySumsStop (offset : Nat) (t : Text) :
    match excess? offset false t with
    | some n => shift offset (ofText t) = .error (.sum n) ∧ Placeholder.shift offset t = none
    | none => ∃ u, Placeholder.shift offset t = some u ∧ shift offset (ofText t) = .ok (ofText u) := by
  have start : Reached [] [] ⟨[], 0, 0⟩ := ⟨rfl, [], [], rfl, rfl, rfl⟩
  by_cases still : offset = 0
  · subst still
    rw [excessUnmoved]
    exact ⟨t, rfl, rfl⟩
  · rw [shift, if_neg still, shiftAsFrom still]
    exact runText start fun _ => rfl

theorem greatestNumberStops :
    let clause := "WHERE (a = $18446744073709551615)".toList
    shift 1 (ofText clause) = .error (.sum 18446744073709551615) ∧
      Placeholder.shift 1 clause = none ∧
      Query.plan
        { table := "notes".toList
          fragments := ["a = $18446744073709551615".toList]
          update := some [("done".toList, .bool true)] } = .error .overflow := by
  intro clause
  refine ⟨?_, ?_, ?_⟩
  · decide +kernel
  · decide +kernel
  · decide +kernel

end Cursor
end TableGateway
