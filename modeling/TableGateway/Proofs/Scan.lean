import TableGateway.Placeholder

/-! How scanning goes through a text that is put together from parts. A text without dollar signs in which
quotes come in pairs is copied and leaves nothing open; a placeholder after it is found again. -/
namespace TableGateway
namespace Placeholder

def numbers : Text → List Text
  | [] => []
  | c :: rest =>
    if c = '$' ∧ (Text.spanDigits rest).1 ≠ [] then (Text.spanDigits rest).1 :: numbers rest
    else numbers rest

def Quiet (t : Text) : Prop := '$' ∉ t ∧ t.count '\'' % 2 = 0

instance (t : Text) : Decidable (Quiet t) := inferInstanceAs (Decidable (_ ∧ _))

def shiftFrom (offset : Nat) (inName : Bool) (t : Text) : Option Text :=
  ((scan inName t).mapM (Piece.shift offset)).map List.flatten

def put (t : Text) (result : Option Text) : Option Text := result.map (t ++ ·)

theorem putSome (t u : Text) : put t (some u) = some (t ++ u) := rfl

theorem putNil (result : Option Text) : put [] result = result := by
  cases result with
  | none => rfl
  | some rest => rfl

theorem putPut (t u : Text) (result : Option Text) : put t (put u result) = put (t ++ u) result := by
  cases result with
  | none => rfl
  | some rest => rw [putSome, putSome, putSome, List.append_assoc]

theorem putCons (c : Char) (t : Text) (result : Option Text) : put [c] (put t result) = put (c :: t) result :=
  putPut [c] t result

theorem shiftAsFrom {offset : Nat} (nonzero : offset ≠ 0) (t : Text) :
    shift offset t = shiftFrom offset false t := if_neg nonzero

theorem spanDigitsAppend {digits rest : Text} (all : ∀ c ∈ digits, c.isDigit)
    (stop : ∀ c ∈ rest.head?, ¬ c.isDigit) : Text.spanDigits (digits ++ rest) = (digits, rest) := by
  induction digits with
  | nil =>
    cases rest with
    | nil => rfl
    | cons c rest =>
      have last : c.isDigit = false := by simpa using stop c
      simp [Text.spanDigits, last]
  | cons d digits ih =>
    have first : d.isDigit := all d (by simp)
    have others := ih fun c member => all c (List.mem_cons_of_mem _ member)
    simp only [Text.spanDigits, Prod.mk.injEq] at others ⊢
    simp [first, others]

theorem numbersCopied {t : Text} (dollarless : '$' ∉ t) (rest : Text) : numbers (t ++ rest) = numbers rest := by
  induction t with
  | nil => rfl
  | cons c t ih =>
    have other : c ≠ '$' := fun same => dollarless (by simp [same])
    rw [List.cons_append, numbers, if_neg fun both => other both.1]
    exact ih fun member => dollarless (List.mem_cons_of_mem _ member)

theorem digitsNoDollar {digits : Text} (all : ∀ c ∈ digits, c.isDigit) : '$' ∉ digits :=
  fun member => absurd (all _ member) (by decide)

theorem numbersNumber {digits rest : Text} (all : ∀ c ∈ digits, c.isDigit) (filled : digits ≠ [])
    (stop : ∀ c ∈ rest.head?, ¬ c.isDigit) : numbers ('$' :: (digits ++ rest)) = digits :: numbers rest := by
  have here : Text.spanDigits (digits ++ rest) = (digits, rest) := spanDigitsAppend all stop
  rw [numbers, here, if_pos ⟨rfl, filled⟩, numbersCopied (digitsNoDollar all)]

theorem numbersPlaceholder {k : Nat} {rest : Text} (stop : ∀ c ∈ rest.head?, ¬ c.isDigit) :
    numbers ('$' :: Text.ofNat k ++ rest) = Text.ofNat k :: numbers rest :=
  numbersNumber (fun _ member => Text.ofNatDigits member) (Text.ofNatNotEmpty k) stop

theorem numbersBehind (t rest : Text) : numbers rest <:+ numbers (t ++ rest) := by
  induction t with
  | nil => exact List.suffix_refl _
  | cons c t ih =>
    rw [List.cons_append, numbers]
    split
    · exact ih.trans (List.suffix_cons _ _)
    · exact ih

theorem shiftFromNil (offset : Nat) (inName : Bool) : shiftFrom offset inName [] = some [] := by
  rw [shiftFrom, scan]
  rfl

theorem shiftFromCons (offset : Nat) (inName : Bool) (c : Char) (rest : Text) :
    shiftFrom offset inName (c :: rest) = ((piece inName c rest).1.shift offset).bind fun t =>
      put t (shiftFrom offset (piece inName c rest).2.1 (piece inName c rest).2.2) := by
  rw [shiftFrom, scan, List.mapM_cons]
  cases (piece inName c rest).1.shift offset with
  | none => rfl
  | some t =>
    rw [shiftFrom]
    cases (scan (piece inName c rest).2.1 (piece inName c rest).2.2).mapM (Piece.shift offset) with
    | none => rfl
    | some ts => rfl

theorem shiftFromPlain {c : Char} (quote : c ≠ '\'') (dollar : c ≠ '$') (offset : Nat) (inName : Bool)
    (rest : Text) :
    shiftFrom offset inName (c :: rest) = put [c] (shiftFrom offset (isName c) rest) := by
  rw [shiftFromCons]
  simp [piece, quote, dollar, Piece.shift]

theorem shiftFromQuote (offset : Nat) (inName : Bool) (rest : Text) :
    shiftFrom offset inName ('\'' :: rest) =
      put ('\'' :: (literal rest).1) (shiftFrom offset false (literal rest).2) := by
  rw [shiftFromCons]
  simp [piece, Piece.shift]

theorem Piece.shiftFits {digits : Text} {offset : Nat} (fits : Text.toNat digits + offset < 2 ^ 64) :
    (Piece.number digits).shift offset = some ('$' :: Text.ofNat (Text.toNat digits + offset)) := by
  have small : Text.toNat digits < 2 ^ 64 := by omega
  rw [shift, if_pos small, Word.sumFits fits]
  rfl

theorem Piece.shiftFitting {p : Piece} {offset : Nat}
    (fits : ∀ digits, p = .number digits → Text.toNat digits < 2 ^ 64 → Text.toNat digits + offset < 2 ^ 64) :
    ∃ u, p.shift offset = some u := by
  cases p with
  | copied t => exact ⟨t, rfl⟩
  | number digits =>
    by_cases small : Text.toNat digits < 2 ^ 64
    · exact ⟨_, shiftFits (fits digits rfl small)⟩
    · exact ⟨_, if_neg small⟩

theorem piecesFitting {offset : Nat} {ps : List Piece} (each : ∀ p ∈ ps, ∃ u, p.shift offset = some u) :
    ∃ ts, ps.mapM (Piece.shift offset) = some ts := by
  induction ps with
  | nil => exact ⟨[], rfl⟩
  | cons p ps ih =>
    obtain ⟨u, here⟩ := each p List.mem_cons_self
    obtain ⟨ts, later⟩ := ih fun q member => each q (List.mem_cons_of_mem p member)
    exact ⟨u :: ts, by rw [List.mapM_cons, here, later]; rfl⟩

theorem shiftFitting {offset : Nat} {t : Text}
    (fits : ∀ digits, .number digits ∈ scan false t → Text.toNat digits < 2 ^ 64 →
      Text.toNat digits + offset < 2 ^ 64) : ∃ u, shift offset t = some u := by
  unfold shift
  split
  · exact ⟨t, rfl⟩
  · obtain ⟨ts, shifted⟩ := piecesFitting fun p member =>
      Piece.shiftFitting fun digits same => fits digits (same ▸ member)
    exact ⟨ts.flatten, by rw [shifted]; rfl⟩

theorem shiftFromNumber {digits rest : Text} (all : ∀ c ∈ digits, c.isDigit) (filled : digits ≠ [])
    (stop : ∀ c ∈ rest.head?, ¬ c.isDigit) (offset : Nat) :
    shiftFrom offset false ('$' :: digits ++ rest) =
      ((Piece.number digits).shift offset).bind fun t => put t (shiftFrom offset true rest) := by
  have here : Text.spanDigits (digits ++ rest) = (digits, rest) := spanDigitsAppend all stop
  rw [List.cons_append, shiftFromCons]
  simp [piece, here, filled]

theorem shiftFromPlaceholder {k offset : Nat} {rest : Text} (fits : k + offset < 2 ^ 64)
    (stop : ∀ c ∈ rest.head?, ¬ c.isDigit) :
    shiftFrom offset false ('$' :: Text.ofNat k ++ rest) =
      put ('$' :: Text.ofNat (k + offset)) (shiftFrom offset true rest) := by
  rw [shiftFromNumber (fun c member => Text.ofNatDigits member) (Text.ofNatNotEmpty k) stop,
    Piece.shiftFits (Text.toNatOfNat k |>.symm ▸ fits), Text.toNatOfNat]
  rfl

theorem literalCopied (t : Text) : (literal t).1 ++ (literal t).2 = t := by
  fun_induction literal t with
  | case1 => rfl
  | case2 rest body r same ih => simp only [same] at ih; simp [ih]
  | case3 rest _ => rfl
  | case4 c rest _ _ body r same ih => simp only [same] at ih; simp [ih]

theorem throughCopied (mark t : Text) : (through mark t).1 ++ (through mark t).2 = t := by
  fun_induction through mark t with
  | case1 => rfl
  | case2 c rest starts =>
    obtain ⟨u, same⟩ := List.isPrefixOf_iff_prefix.mp starts
    rw [← same, List.drop_left]
  | case3 c rest _ body left same ih => simp only [same] at ih; simp [ih]

theorem shiftFromDollarless (offset : Nat) (inName : Bool) {t : Text} (dollarless : '$' ∉ t) :
    shiftFrom offset inName t = some t := by
  -- On the length, since a literal is read in one step.
  induction size : t.length using Nat.strongRecOn generalizing inName t with
  | ind n ih =>
    cases t with
    | nil => exact shiftFromNil offset inName
    | cons c rest =>
      have dollar : c ≠ '$' := fun same => dollarless (by simp [same])
      have inner : '$' ∉ rest := fun member => dollarless (List.mem_cons_of_mem _ member)
      have shorter : rest.length < n := by simp [← size]
      by_cases quote : c = '\''
      · subst quote
        have whole := literalCopied rest
        have outer : '$' ∉ (literal rest).2 := fun member =>
          inner (by rw [← whole]; exact List.mem_append_right _ member)
        have less := Nat.lt_of_le_of_lt (literalShorter rest) shorter
        rw [shiftFromQuote, ih _ less false outer rfl, putSome, List.cons_append, whole]
      · rw [shiftFromPlain quote dollar, ih _ shorter (isName c) inner rfl, putSome]
        rfl

theorem literalCloses {t : Text} (odd : t.count '\'' % 2 = 1) {stop : Char} (other : stop ≠ '\'')
    (rest : Text) :
    ∃ body left, t = body ++ left ∧ left.count '\'' % 2 = 0 ∧
      literal (t ++ stop :: rest) = (body, left ++ stop :: rest) := by
  induction t using literal.induct with
  | case1 => simp at odd
  | case2 t _ _ _ ih =>
    have inner : t.count '\'' % 2 = 1 := by simp at odd; omega
    obtain ⟨body, left, same, even, read⟩ := ih inner
    exact ⟨'\'' :: '\'' :: body, left, by simp [same], even, by simp [literal, read]⟩
  | case3 t single =>
    refine ⟨['\''], t, rfl, by simp at odd; omega, ?_⟩
    cases t with
    | nil => simp [literal, other]
    | cons d t =>
      have next : d ≠ '\'' := fun same => single t (by simp [same])
      simp [literal, next]
  | case4 c t _ notQuote _ _ _ ih =>
    have quote : c ≠ '\'' := notQuote
    have inner : t.count '\'' % 2 = 1 := by simpa [quote] using odd
    obtain ⟨body, left, same, even, read⟩ := ih inner
    exact ⟨c :: body, left, by simp [same], even, by simp [literal, quote, read]⟩

theorem shiftFromQuiet {t : Text} (quiet : Quiet t) {stop : Char} (quote : stop ≠ '\'')
    (dollar : stop ≠ '$') (offset : Nat) (inName : Bool) (rest : Text) :
    shiftFrom offset inName (t ++ stop :: rest) = put (t ++ [stop]) (shiftFrom offset (isName stop) rest) := by
  induction size : t.length using Nat.strongRecOn generalizing inName t with
  | ind n ih =>
    obtain ⟨dollarless, even⟩ := quiet
    cases t with
    | nil => exact shiftFromPlain quote dollar offset inName rest
    | cons c t =>
      have inner : '$' ∉ t := fun member => dollarless (List.mem_cons_of_mem _ member)
      by_cases opens : c = '\''
      · subst opens
        have odd : t.count '\'' % 2 = 1 := by simp at even; omega
        obtain ⟨body, left, same, paired, read⟩ := literalCloses odd quote rest
        have outer : '$' ∉ left := fun member =>
          inner (by rw [same]; exact List.mem_append_right _ member)
        have less : left.length < n := by
          have := congrArg List.length same
          simp at this size
          omega
        rw [List.cons_append, shiftFromQuote, read, ih _ less ⟨outer, paired⟩ false rfl, putPut, same]
        simp
      · have first : c ≠ '$' := fun same => dollarless (by simp [same])
        have paired : t.count '\'' % 2 = 0 := by simpa [opens] using even
        rw [List.cons_append, shiftFromPlain opens first,
          ih _ (by simp [← size]) ⟨inner, paired⟩ (isName c) rfl, putCons, List.cons_append]

end Placeholder
end TableGateway
