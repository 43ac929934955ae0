import TableGateway.Proofs.Pieces

/-! Scanning a text that has been shifted. It comes apart into the same pieces with later numbers, since every piece
is ended by what begins the next one, and that stays. So two shifts in turn are one shift by the sum. -/
namespace TableGateway
namespace Placeholder

def Piece.renumber (offset : Nat) : Piece → Piece
  | .copied t => .copied t
  | .number digits =>
    .number (if Text.toNat digits < 2 ^ 64 then Text.ofNat (Text.toNat digits + offset) else digits)

theorem Piece.textRenumber {p : Piece} {offset : Nat} {t : Text} (shifted : p.shift offset = some t) :
    (p.renumber offset).text = t := by
  cases p with
  | copied => exact Option.some.inj shifted
  | number digits =>
    rw [shift] at shifted
    rw [renumber, text]
    split at shifted
    · rename_i small
      obtain ⟨n, sum, rfl⟩ := Option.map_eq_some_iff.mp shifted
      rw [if_pos small, (Word.sumIff.mp sum).1]
    · rename_i large
      rw [if_neg large]
      exact Option.some.inj shifted

theorem Piece.shiftRenumber (p : Piece) (first second : Nat) :
    ((p.shift first).bind fun _ => (p.renumber first).shift second) = p.shift (first + second) := by
  cases p with
  | copied t => rfl
  | number digits =>
    by_cases small : Text.toNat digits < 2 ^ 64
    · rw [shift, if_pos small, renumber, if_pos small, shift, Text.toNatOfNat, shift, if_pos small, Word.sumAssoc]
      by_cases fits : Text.toNat digits + first < 2 ^ 64
      · rw [Word.sumFits fits, if_pos fits]
        rfl
      · have excess : 2 ^ 64 ≤ Text.toNat digits + (first + second) := by omega
        rw [Word.sumOverflows (Nat.le_of_not_lt fits), Word.sumOverflows excess]
        rfl
    · rw [shift, if_neg small, renumber, if_neg small, shift, if_neg small]
      exact if_neg small |>.symm

theorem literalAgain {t u : Text} (next : u.head? = (literal t).2.head?) :
    literal ((literal t).1 ++ u) = ((literal t).1, u) := by
  fun_induction literal t with
  | case1 =>
    obtain rfl : u = [] := List.head?_eq_none_iff.mp next
    rfl
  | case2 rest body left same ih => simp only [same] at ih; simp [literal, ih next]
  | case3 rest single =>
    cases u with
    | nil => rfl
    | cons c u =>
      have other : c ≠ '\'' := by
        rintro rfl
        cases rest with
        | nil => cases next
        | cons d rest => exact single rest (by cases next; rfl)
      simp [literal, other]
  | case4 c rest _ other body left same ih =>
    have quote : c ≠ '\'' := other
    simp only [same] at ih
    simp [literal, quote, ih next]

theorem throughUnmarked {mark t u : Text} (next : u.head? = (through mark t).2.head?) {c : Char}
    (unmarked : ¬ mark.isPrefixOf (c :: t)) : ¬ mark.isPrefixOf (c :: (through mark t).1 ++ u) := by
  rw [List.isPrefixOf_iff_prefix] at unmarked ⊢
  intro starts
  refine unmarked ?_
  have whole := throughCopied mark t
  by_cases closed : (through mark t).2 = []
  · obtain rfl : u = [] := List.head?_eq_none_iff.mp (next.trans (by rw [closed]; rfl))
    rw [closed] at whole
    rwa [List.cons_append, whole] at starts
  · have short : mark.length ≤ (c :: (through mark t).1).length := Nat.le_succ_of_le (throughEnds closed).length_le
    have inside := List.prefix_of_prefix_length_le starts (List.prefix_append _ _) short
    exact inside.trans ⟨(through mark t).2, by rw [List.cons_append, whole]⟩

theorem throughAgain {mark t u : Text} (filled : mark ≠ []) (next : u.head? = (through mark t).2.head?) :
    through mark ((through mark t).1 ++ u) = ((through mark t).1, u) := by
  induction t with
  | nil =>
    obtain rfl : u = [] := List.head?_eq_none_iff.mp next
    rfl
  | cons c rest ih =>
    by_cases starts : mark.isPrefixOf (c :: rest)
    · obtain ⟨m, others, rfl⟩ := List.exists_cons_of_ne_nil filled
      have again : (m :: others).isPrefixOf (m :: (others ++ u)) := by simp
      simp only [through, starts, if_true, List.cons_append, again]
      simp
    · have unmarked := throughUnmarked (t := rest) (u := u) (by simpa [through, starts] using next) starts
      have others := ih (by simpa [through, starts] using next)
      simp [through, starts] at unmarked ⊢
      simp [unmarked, others]

variable {offset : Nat} {inName : Bool}

theorem shiftFromHead {t u : Text} (shifted : shiftFrom offset inName t = some u) : u.head? = t.head? := by
  cases t with
  | nil =>
    rw [shiftFromNil] at shifted
    cases shifted
    rfl
  | cons c rest =>
    obtain ⟨p, next, left, taken⟩ := takesOne inName c rest
    rw [shiftFromTaken taken] at shifted
    obtain ⟨first, here, later⟩ := Option.bind_eq_some_iff.mp shifted
    obtain ⟨last, -, rfl⟩ := Option.map_eq_some_iff.mp later
    obtain rfl := Piece.textRenumber here
    cases taken <;> rfl

theorem shiftFromWord {name t u : Text} (quotes : '\'' ∉ name) (signs : '$' ∉ name)
    (shifted : shiftFrom offset inName t = some (name ++ u)) :
    ∃ v within, t = name ++ v ∧ shiftFrom offset within v = some u := by
  induction name generalizing inName t with
  | nil => exact ⟨t, inName, rfl, shifted⟩
  | cons c name ih =>
    obtain ⟨quote, quotes⟩ := List.ne_and_not_mem_of_not_mem_cons quotes
    obtain ⟨sign, signs⟩ := List.ne_and_not_mem_of_not_mem_cons signs
    have head := shiftFromHead shifted
    cases t with
    | nil => cases head
    | cons d t =>
      cases head
      rw [shiftFromPlain quote.symm sign.symm] at shifted
      obtain ⟨rest, found, same⟩ := Option.map_eq_some_iff.mp shifted
      obtain rfl : rest = name ++ u := List.cons_inj_right c |>.mp same
      obtain ⟨v, within, rfl, later⟩ := ih quotes signs found
      exact ⟨v, within, rfl, later⟩

theorem tagAgain {t u : Text} (none : tag? t = none) (shifted : shiftFrom offset inName t = some u) :
    tag? u = .none := by
  cases again : tag? u with
  | none => rfl
  | some found =>
    obtain ⟨name, tagName, -, rfl⟩ := tagFound again
    obtain ⟨v, within, rfl, later⟩ := shiftFromWord tagName.copied.1 tagName.copied.2 shifted
    have head := shiftFromHead later
    cases v with
    | nil => cases head
    | cons d v =>
      cases head
      rw [tagRead tagName] at none
      cases none

theorem Takes.again {t left u : Text} {p : Piece} {next : Bool} (taken : Takes inName t p next left)
    (later : shiftFrom offset next left = some u) :
    Takes inName ((p.renumber offset).text ++ u) (p.renumber offset) next u := by
  have head := shiftFromHead later
  cases taken with
  | quote inName rest =>
    have again := Takes.quote inName ((literal rest).1 ++ u)
    rwa [literalAgain head] at again
  | @number digits rest all filled stop =>
    have stop : ∀ c ∈ u.head?, ¬ c.isDigit := head ▸ stop
    by_cases small : Text.toNat digits < 2 ^ 64
    · rw [Piece.renumber, if_pos small]
      exact .number (fun c member => Text.ofNatDigits member) (Text.ofNatNotEmpty _) stop
    · rw [Piece.renumber, if_neg small]
      exact .number all filled stop
  | @dollar name tagName rest =>
    have again := Takes.dollar tagName ((through ('$' :: (name ++ ['$'])) rest).1 ++ u)
    rw [throughAgain (List.cons_ne_nil _ _) head] at again
    simpa [Piece.renumber, Piece.text] using again
  | sign stop tagless => exact .sign (head ▸ stop) (tagAgain tagless later)
  | plain quote within => exact .plain quote within

theorem scanAgain {t u : Text} (shifted : shiftFrom offset inName t = some u) :
    scan inName u = (scan inName t).map (Piece.renumber offset) := by
  fun_induction scan inName t generalizing u with
  | case1 inName =>
    rw [shiftFromNil] at shifted
    cases shifted
    rw [scan]
    rfl
  | case2 inName c rest ih =>
    have taken := pieceTakes inName c rest
    rw [shiftFromTaken taken] at shifted
    obtain ⟨first, here, later⟩ := Option.bind_eq_some_iff.mp shifted
    obtain ⟨last, left, rfl⟩ := Option.map_eq_some_iff.mp later
    obtain rfl := Piece.textRenumber here
    rw [scanTaken (taken.again left), ih left, List.map_cons]

theorem shiftPieces (ps : List Piece) (first second : Nat) :
    ((ps.mapM (Piece.shift first)).bind fun _ => (ps.map (Piece.renumber first)).mapM (Piece.shift second)) =
      ps.mapM (Piece.shift (first + second)) := by
  induction ps with
  | nil => rfl
  | cons p ps ih =>
    rw [List.mapM_cons, List.mapM_cons, List.map_cons, List.mapM_cons, ← p.shiftRenumber first second, ← ih]
    cases p.shift first with
    | none => rfl
    | some t =>
      cases ps.mapM (Piece.shift first) with
      | none =>
        cases (p.renumber first).shift second with
        | none => rfl
        | some u => rfl
      | some ts => rfl

theorem Takes.numbered {t left digits : Text} {next : Bool} (taken : Takes inName t (.number digits) next left) :
    digits ∈ numbers t := by
  cases taken with
  | number all filled stop => exact numbersNumber all filled stop ▸ List.mem_cons_self

theorem scanNumbers {t digits : Text} (member : .number digits ∈ scan inName t) : digits ∈ numbers t := by
  fun_induction scan inName t with
  | case1 => cases member
  | case2 inName c rest ih =>
    have taken := pieceTakes inName c rest
    rcases List.mem_cons.mp member with here | later
    · exact (here ▸ taken).numbered
    · exact taken.whole ▸ (numbersBehind _ _).subset (ih later)

theorem shiftAgain (first second : Nat) (t : Text) :
    (shift first t).bind (shift second) = shift (first + second) t := by
  by_cases still : first = 0
  · subst still
    rw [Nat.zero_add]
    rfl
  by_cases last : second = 0
  · subst last
    exact Option.bind_fun_some _
  · have both : first + second ≠ 0 := by omega
    rw [shiftAsFrom still, shiftAsFrom both]
    cases shifted : shiftFrom first false t with
    | none =>
      have stopped : (scan false t).mapM (Piece.shift first) = none := Option.map_eq_none_iff.mp shifted
      rw [shiftFrom, ← shiftPieces, stopped]
      rfl
    | some u =>
      obtain ⟨ts, found, -⟩ := Option.map_eq_some_iff.mp shifted
      rw [Option.bind_some, shiftAsFrom last, shiftFrom, scanAgain shifted, shiftFrom, ← shiftPieces, found]
      rfl

theorem shiftTwice (first second : Nat) (t : Text) :
    (shift first t).bind (shift second) = shift (first + second) t ∧
    ((∀ digits ∈ numbers t, Text.toNat digits < 2 ^ 64 → Text.toNat digits + (first + second) < 2 ^ 64) →
      ∃ u, shift (first + second) t = some u) := by
  exact ⟨shiftAgain first second t, fun fits => shiftFitting fun digits member => fits digits (scanNumbers member)⟩

end Placeholder
end TableGateway
