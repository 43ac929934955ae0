import TableGateway.Proofs.Characters

/-! The ways in which scanning takes a piece from a text, one for each kind of piece with what ends it. -/
namespace TableGateway
namespace Placeholder

structure TagName (name : Text) : Prop where
  first : ∀ c ∈ name.head?, (c.isAlpha || c = '_') = true
  word : ∀ c ∈ name, (c.isAlphanum || c = '_') = true

theorem TagName.copied {name : Text} (tagName : TagName name) : '\'' ∉ name ∧ '$' ∉ name :=
  ⟨fun member => absurd (tagName.word _ member) (by decide),
    fun member => absurd (tagName.word _ member) (by decide)⟩

theorem TagName.digitless {name : Text} (tagName : TagName name) {rest : Text} :
    ∀ c ∈ (name ++ '$' :: rest).head?, ¬ c.isDigit := by
  intro c member
  cases name with
  | nil =>
    cases member
    decide
  | cons d name =>
    cases member
    have letter : Text.isLetter c := by
      rw [Text.isLetter, tagName.first c rfl, Bool.true_or]
    simp [Text.letterNotDigit letter]

theorem tagRead {name : Text} (tagName : TagName name) (rest : Text) :
    tag? (name ++ '$' :: rest) = some (name ++ ['$'], rest) := by
  cases name with
  | nil => rfl
  | cons c name =>
    have first : (c.isAlpha || c = '_') = true := tagName.first c rfl
    have ended : ('$' :: rest).takeWhile (fun d => d.isAlphanum || d = '_') = [] :=
      List.takeWhile_cons_of_neg (by decide)
    have taken : (c :: name ++ '$' :: rest).takeWhile (fun d => d.isAlphanum || d = '_') = c :: name := by
      rw [List.takeWhile_append_of_pos tagName.word, ended, List.append_nil]
    rw [List.cons_append] at taken ⊢
    simp only [tag?, first, if_true, taken]
    simp

def leadingName (t : Text) : Text :=
  match t with
  | c :: _ => if c.isAlpha || c = '_' then t.takeWhile fun c => c.isAlphanum || c = '_' else []
  | [] => []

theorem firstWord {c : Char} (first : (c.isAlpha || c = '_') = true) : (c.isAlphanum || c = '_') = true := by
  simp only [Char.isAlphanum, Bool.or_eq_true] at first ⊢
  exact first.imp_left .inl

theorem leadingTagName (t : Text) : TagName (leadingName t) := by
  unfold leadingName
  split
  case h_1 c rest =>
    split
    case isTrue first =>
      have word := firstWord first
      refine ⟨fun d member => ?_, fun d member => List.all_eq_true.mp List.all_takeWhile d member⟩
      simp only [List.takeWhile_cons, word, if_true] at member
      cases member
      exact first
    case isFalse => exact ⟨nofun, nofun⟩
  case h_2 => exact ⟨nofun, nofun⟩

theorem leadingPrefix (t : Text) : leadingName t <+: t := by
  unfold leadingName
  split
  · split
    · exact List.takeWhile_prefix _
    · exact List.nil_prefix
  · exact List.nil_prefix

theorem leadingNameCons (c : Char) (t : Text) : leadingName (c :: t) =
    if c.isAlpha || c = '_' then (c :: t).takeWhile fun c => c.isAlphanum || c = '_' else [] := rfl

theorem signFirst {u : Text} : u.head? = some '$' ↔ ∃ rest, u = '$' :: rest := by
  cases u <;> simp

theorem tagLeading {t u : Text} (whole : leadingName t ++ u = t) :
    tag? t = if u.head? = some '$' then some (leadingName t ++ ['$'], u.tail) else none := by
  have cut : t.drop (leadingName t).length = u := by
    have dropped := congrArg (List.drop (leadingName t).length) whole
    rwa [List.drop_left, eq_comm] at dropped
  cases t with
  | nil =>
    subst cut
    rfl
  | cons c rest =>
    simp only [tag?, ← leadingNameCons, cut]
    split
    case h_1 => rfl
    case h_2 other =>
      have signless : u.head? ≠ some '$' := fun head => (signFirst.mp head).elim other
      rw [if_neg signless]

theorem tagFound {t tag rest : Text} (found : tag? t = some (tag, rest)) :
    ∃ name, TagName name ∧ tag = name ++ ['$'] ∧ t = name ++ '$' :: rest := by
  obtain ⟨u, whole⟩ := leadingPrefix t
  rw [tagLeading whole] at found
  split at found
  case isTrue head =>
    cases found
    obtain ⟨rest, rfl⟩ := signFirst.mp head
    exact ⟨leadingName t, leadingTagName t, rfl, whole.symm⟩
  case isFalse => cases found

inductive Takes : Bool → Text → Piece → Bool → Text → Prop
  | quote (inName : Bool) (rest : Text) :
    Takes inName ('\'' :: rest) (.copied ('\'' :: (literal rest).1)) false (literal rest).2
  | number {digits rest : Text} (all : ∀ c ∈ digits, c.isDigit) (filled : digits ≠ [])
      (stop : ∀ c ∈ rest.head?, ¬ c.isDigit) : Takes false ('$' :: (digits ++ rest)) (.number digits) true rest
  | dollar {name : Text} (tagName : TagName name) (rest : Text) :
    Takes false ('$' :: (name ++ '$' :: rest))
      (.copied ('$' :: (name ++ '$' :: (through ('$' :: (name ++ ['$'])) rest).1))) true
      (through ('$' :: (name ++ ['$'])) rest).2
  | sign {rest : Text} (stop : ∀ c ∈ rest.head?, ¬ c.isDigit) (tagless : tag? rest = none) :
    Takes false ('$' :: rest) (.copied ['$']) true rest
  | plain {inName : Bool} {c : Char} {rest : Text} (quote : c ≠ '\'') (within : c = '$' → inName) :
    Takes inName (c :: rest) (.copied [c]) (isName c) rest

theorem spanNoDigits {t : Text} : (Text.spanDigits t).1 = [] ↔ ∀ c ∈ t.head?, ¬ c.isDigit := by
  cases t with
  | nil => simp [Text.spanDigits]
  | cons c t => by_cases digit : c.isDigit <;> simp [Text.spanDigits, digit]

theorem spanStops (t : Text) : ∀ c ∈ (Text.spanDigits t).2.head?, ¬ c.isDigit := by
  intro c member
  have stop := List.head?_dropWhile_not Char.isDigit t
  rw [show (t.dropWhile Char.isDigit).head? = some c from member] at stop
  simpa using stop

theorem pieceTakes (inName : Bool) (c : Char) (rest : Text) :
    Takes inName (c :: rest) (piece inName c rest).1 (piece inName c rest).2.1 (piece inName c rest).2.2 := by
  unfold piece
  split
  case isTrue quote =>
    subst quote
    exact .quote inName rest
  case isFalse quote =>
    split
    case isTrue sign =>
      obtain ⟨rfl, outside⟩ := sign
      obtain rfl : inName = false := by simpa using outside
      split
      case isTrue digits =>
        have all : ∀ d ∈ (Text.spanDigits rest).1, d.isDigit := fun d member =>
          List.all_eq_true.mp List.all_takeWhile d member
        have whole : (Text.spanDigits rest).1 ++ (Text.spanDigits rest).2 = rest := List.takeWhile_append_dropWhile
        have taken := Takes.number all digits (spanStops rest)
        rwa [whole] at taken
      case isFalse digitless =>
        split
        case h_1 tag left found =>
          obtain ⟨name, tagName, rfl, rfl⟩ := tagFound found
          have taken := Takes.dollar tagName left
          simpa using taken
        case h_2 tagless => exact .sign (spanNoDigits.mp (by simpa using digitless)) tagless
    case isFalse within =>
      exact .plain quote fun sign => by simpa [sign] using within

theorem takesOne (inName : Bool) (c : Char) (rest : Text) :
    ∃ p next left, Takes inName (c :: rest) p next left := ⟨_, _, _, pieceTakes inName c rest⟩

theorem takenPiece {inName next : Bool} {c : Char} {rest left : Text} {p : Piece}
    (taken : Takes inName (c :: rest) p next left) : piece inName c rest = (p, next, left) := by
  cases taken with
  | quote => simp [piece]
  | number all filled stop => simp [piece, spanDigitsAppend all stop, filled]
  | dollar tagName rest =>
    simp [piece, spanNoDigits.mpr tagName.digitless, tagRead tagName]
  | sign stop tagless => simp [piece, spanNoDigits.mpr stop, tagless]
  | plain quote within =>
    by_cases sign : c = '$'
    · simp [piece, sign, within sign, isName]
    · simp [piece, quote, sign]

theorem Takes.filled {inName next : Bool} {t left : Text} {p : Piece} (taken : Takes inName t p next left) :
    ∃ c rest, t = c :: rest := by
  cases taken <;> exact ⟨_, _, rfl⟩

theorem scanTaken {inName next : Bool} {t left : Text} {p : Piece} (taken : Takes inName t p next left) :
    scan inName t = p :: scan next left := by
  obtain ⟨c, rest, rfl⟩ := taken.filled
  rw [scan, takenPiece taken]

theorem Takes.whole {inName next : Bool} {t left : Text} {p : Piece} (taken : Takes inName t p next left) :
    t = p.text ++ left := by
  cases taken with
  | quote => simp [Piece.text, literalCopied]
  | number => simp [Piece.text]
  | dollar tagName rest => simp [Piece.text, throughCopied]
  | sign => rfl
  | plain => rfl

def endsInName (t : Text) : Bool := t.getLast?.any isName

theorem endsBehind (before : Text) {t : Text} {c : Char} (last : t.getLast? = some c) :
    endsInName (before ++ t) = isName c := by
  simp [endsInName, List.getLast?_append, last]

theorem digitName {c : Char} (digit : c.isDigit) : isName c := by
  simp [isName, Char.isAlphanum, digit]

theorem literalEnds {t : Text} (left : (literal t).2 ≠ []) : (literal t).1.getLast? = some '\'' := by
  fun_induction literal t with
  | case1 => exact absurd rfl left
  | case2 rest body after same ih => simp only [same] at ih; simp [List.getLast?_cons, ih left]
  | case3 => rfl
  | case4 c rest _ _ body after same ih => simp only [same] at ih; simp [List.getLast?_cons, ih left]

theorem throughEnds {mark t : Text} (left : (through mark t).2 ≠ []) : mark <:+ (through mark t).1 := by
  fun_induction through mark t with
  | case1 => exact absurd rfl left
  | case2 => exact List.suffix_refl _
  | case3 c rest _ body after same ih =>
    simp only [same] at ih
    exact (ih left).trans (List.suffix_cons c body)

theorem Takes.behind {next : Bool} {before t left : Text} {p : Piece}
    (taken : Takes (endsInName before) t p next left) (more : left ≠ []) : endsInName (before ++ p.text) = next := by
  generalize flag : endsInName before = inName at taken
  cases taken with
  | quote _ rest =>
    have last : ('\'' :: (literal rest).1).getLast? = some '\'' := by simp [List.getLast?_cons, literalEnds more]
    exact endsBehind before last
  | @number digits rest all filled stop =>
    have last : (Piece.number digits).text.getLast? = some (digits.getLast filled) := by
      rw [Piece.text, List.getLast?_cons, List.getLast?_eq_some_getLast filled]
      rfl
    rw [endsBehind before last, digitName (all _ (List.getLast_mem filled))]
  | @dollar name tagName rest =>
    obtain ⟨body, same⟩ := throughEnds more
    have whole : '$' :: (name ++ '$' :: (body ++ '$' :: (name ++ ['$']))) =
        ('$' :: (name ++ '$' :: (body ++ '$' :: name))) ++ ['$'] := by simp
    rw [← same, Piece.text, whole]
    exact endsBehind before List.getLast?_concat
  | sign => exact endsBehind (t := ['$']) before rfl
  | plain => exact endsBehind before rfl

theorem shiftFromTaken {inName next : Bool} {t left : Text} {p : Piece} (taken : Takes inName t p next left)
    (offset : Nat) :
    shiftFrom offset inName t = (p.shift offset).bind fun u => put u (shiftFrom offset next left) := by
  obtain ⟨c, rest, rfl⟩ := taken.filled
  rw [shiftFromCons, takenPiece taken]

end Placeholder
end TableGateway
