import TableGateway.Number.Word

/-! Numbered placeholders in a statement. Scanning takes the text apart: a dollar sign with digits is a
placeholder unless it is inside a quoted literal, a dollar-quoted one, or a name. -/
namespace TableGateway
namespace Placeholder

inductive Piece
  | copied (t : Text)
  | number (digits : Text)
  deriving DecidableEq, Repr

def Piece.text : Piece → Text
  | .copied t => t
  | .number digits => '$' :: digits

def isName (c : Char) : Bool := c.isAlphanum || c = '_' || c = '$' || 127 < c.toNat

def literal : Text → Text × Text
  | [] => ([], [])
  | '\'' :: '\'' :: rest =>
    let (body, rest) := literal rest
    ('\'' :: '\'' :: body, rest)
  | '\'' :: rest => (['\''], rest)
  | c :: rest =>
    let (body, rest) := literal rest
    (c :: body, rest)

def tag? (t : Text) : Option (Text × Text) :=
  let name := match t with
    | c :: _ => if c.isAlpha || c = '_' then t.takeWhile fun c => c.isAlphanum || c = '_' else []
    | [] => []
  match t.drop name.length with
  | '$' :: rest => some (name ++ ['$'], rest)
  | _ => none

def through (tag : Text) : Text → Text × Text
  | [] => ([], [])
  | c :: rest =>
    if tag.isPrefixOf (c :: rest) then (tag, (c :: rest).drop tag.length)
    else
      let (body, rest) := through tag rest
      (c :: body, rest)

def piece (inName : Bool) (c : Char) (rest : Text) : Piece × Bool × Text :=
  if c = '\'' then (.copied (c :: (literal rest).1), false, (literal rest).2)
  else if c = '$' ∧ !inName then
    if (Text.spanDigits rest).1 ≠ [] then
      (.number (Text.spanDigits rest).1, true, (Text.spanDigits rest).2)
    else
      match tag? rest with
      | some (tag, rest) =>
        (.copied ('$' :: tag ++ (through ('$' :: tag) rest).1), true, (through ('$' :: tag) rest).2)
      | none => (.copied ['$'], true, rest)
  else (.copied [c], isName c, rest)

theorem literalShorter (t : Text) : (literal t).2.length ≤ t.length := by
  fun_induction literal t with
  | case1 => simp
  | case2 rest body r same ih => simp only [same] at ih; simp; omega
  | case3 rest _ => simp
  | case4 c rest _ _ body r same ih => simp only [same] at ih; simp; omega

theorem throughShorter (tag t : Text) : (through tag t).2.length ≤ t.length := by
  fun_induction through tag t with
  | case1 => simp
  | case2 c rest _ => simp
  | case3 c rest _ body r same ih => simp only [same] at ih; simp; omega

theorem tagShorter {t tag rest : Text} (h : tag? t = some (tag, rest)) : rest.length ≤ t.length := by
  simp only [tag?] at h
  split at h
  · rename_i r same
    obtain ⟨-, rfl⟩ := Prod.mk.inj (Option.some.inj h)
    have := congrArg List.length same
    simp only [List.length_drop, List.length_cons] at this
    omega
  · simp at h

theorem pieceShorter (inName : Bool) (c : Char) (rest : Text) :
    (piece inName c rest).2.2.length ≤ rest.length := by
  simp only [piece]
  split
  · exact literalShorter rest
  · split
    · split
      · exact (List.dropWhile_suffix _).length_le
      · split
        · rename_i tag r same
          exact Nat.le_trans (throughShorter _ _) (tagShorter same)
        · exact Nat.le_refl _
    · exact Nat.le_refl _

def scan (inName : Bool) : Text → List Piece
  | [] => []
  | c :: rest =>
    (piece inName c rest).1 :: scan (piece inName c rest).2.1 (piece inName c rest).2.2
  termination_by t => t.length
  decreasing_by
    have := pieceShorter inName c rest
    simp
    omega

def Piece.shift (offset : Nat) : Piece → Option Text
  | .copied t => some t
  | .number digits =>
    if Text.toNat digits < 2 ^ 64 then
      (Word.add? (Text.toNat digits) offset).map fun n => '$' :: Text.ofNat n
    else some ('$' :: digits)

def shift (offset : Nat) (t : Text) : Option Text :=
  if offset = 0 then some t else ((scan false t).mapM (Piece.shift offset)).map List.flatten

end Placeholder
end TableGateway
