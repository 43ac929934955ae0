import TableGateway.Proofs.Lexeme

/-! Texts made of segments: plain text, closed literals, dollar-quoted texts and placeholders, in any order. A shift
gives each placeholder its new number and leaves the other segments as they are. -/
namespace TableGateway
open Placeholder (isName endsInName endsBehind put shift shiftFrom)

inductive Segment
  | plain (t : Text)
  | literal (content : Text)
  | dollar (tag body : Text)
  | placeholder (digits : Text)
  deriving DecidableEq, Repr

namespace Segment

def text : Segment → Text
  | .plain t => t
  | .literal content => (Lexeme.literal content).text
  | .dollar tag body => (Lexeme.dollar tag body).text
  | .placeholder digits => '$' :: digits

def shifted (offset : Nat) : Segment → Text
  | .placeholder digits => '$' :: Text.ofNat (Text.toNat digits + offset)
  | s => s.text

def Proper : Segment → Prop
  | .plain t => '\'' ∉ t ∧ '$' ∉ t
  | .literal _ => True
  | .dollar tag body => (Lexeme.dollar tag body).Proper ∧ (Lexeme.dollar tag body).Clear
  | .placeholder digits => digits ≠ [] ∧ digits.all Char.isDigit

instance (s : Segment) : Decidable s.Proper :=
  match s with
  | .plain _ => inferInstanceAs (Decidable (_ ∧ _))
  | .literal _ => inferInstanceAs (Decidable True)
  | .dollar _ _ => inferInstanceAs (Decidable (_ ∧ _))
  | .placeholder _ => inferInstanceAs (Decidable (_ ∧ _))

def signed : Segment → Bool
  | .dollar _ _ | .placeholder _ => true
  | _ => false

def isPlaceholder : Segment → Bool
  | .placeholder _ => true
  | _ => false

/-- What may stand behind `before`: a dollar sign begins no segment within a name, and no digit comes behind a
placeholder. -/
def Laid (before : Text) : List Segment → Prop
  | [] => True
  | s :: rest => s.Proper ∧ (s.signed → endsInName before = false) ∧
    (s.isPlaceholder → (rest.flatMap text).head?.any Char.isDigit = false) ∧ Laid (before ++ s.text) rest

instance laidDecidable (before : Text) (segments : List Segment) : Decidable (Laid before segments) :=
  match segments with
  | [] => inferInstanceAs (Decidable True)
  | s :: rest =>
    have := laidDecidable (before ++ s.text) rest
    inferInstanceAs (Decidable (_ ∧ _ ∧ _ ∧ _))

variable {before rest : Text} {offset : Nat}

theorem shiftFromUnquoted {t : Text} (quotes : '\'' ∉ t) (signs : '$' ∉ t) :
    shiftFrom offset (endsInName before) (t ++ rest) =
      put t (shiftFrom offset (endsInName (before ++ t)) rest) := by
  induction t generalizing before with
  | nil => rw [List.nil_append, List.append_nil, Placeholder.putNil]
  | cons c t ih =>
    obtain ⟨quote, quotes⟩ := List.ne_and_not_mem_of_not_mem_cons quotes
    obtain ⟨sign, signs⟩ := List.ne_and_not_mem_of_not_mem_cons signs
    have later : shiftFrom offset (endsInName (before ++ [c])) (t ++ rest) = _ := ih quotes signs
    rw [endsBehind before List.getLast?_singleton, List.append_assoc] at later
    rw [List.cons_append, Placeholder.shiftFromPlain quote.symm sign.symm, later, Placeholder.putCons]
    rfl

theorem shiftFromSegment {s : Segment} (proper : s.Proper) (begun : s.signed → endsInName before = false)
    (ended : s.isPlaceholder → rest.head?.any Char.isDigit = false)
    (fits : ∀ digits, s = .placeholder digits → Text.toNat digits + offset < 2 ^ 64) :
    shiftFrom offset (endsInName before) (s.text ++ rest) =
      put (s.shifted offset) (shiftFrom offset (endsInName (before ++ s.text)) rest) := by
  cases s with
  | plain t => exact shiftFromUnquoted proper.1 proper.2
  | literal content =>
    have last : (literal content).text.getLast? = some '\'' := List.getLast?_concat
    have outer : isName '\'' = false := by decide
    have read := Lexeme.shiftFromPaired offset (endsInName before) (Lexeme.pairedDoubled content) rest
    rw [endsBehind before last, outer]
    simpa [text, shifted, Lexeme.text] using read
  | dollar tag body =>
    have whole : (Lexeme.dollar tag body).text = Lexeme.delimiter tag ++ body ++ '$' :: tag ++ ['$'] := by
      simp [Lexeme.text, Lexeme.delimiter]
    have last : (Lexeme.dollar tag body).text.getLast? = some '$' := by rw [whole, List.getLast?_concat]
    rw [text, begun rfl, endsBehind before last]
    exact Lexeme.shiftFromDollar offset proper.1 proper.2 rest
  | placeholder digits =>
    obtain ⟨filled, proper⟩ := proper
    have all : ∀ c ∈ digits, c.isDigit := List.all_eq_true.mp proper
    obtain ⟨front, d, rfl⟩ : ∃ front d, digits = front ++ [d] := ⟨_, _, (List.dropLast_append_getLast filled).symm⟩
    have last : ('$' :: (front ++ [d])).getLast? = some d := by rw [← List.cons_append, List.getLast?_concat]
    have stop : ∀ c ∈ rest.head?, ¬ c.isDigit := by
      intro c member
      have plain := ended rfl
      rw [Option.mem_def.mp member] at plain
      simpa using plain
    rw [text, begun rfl, endsBehind before last, Placeholder.digitName (all d (by simp)),
      Placeholder.shiftFromNumber all filled stop, Placeholder.Piece.shiftFits (fits _ rfl)]
    rfl

theorem shiftFromSegments {segments : List Segment} (laid : Laid before segments)
    (fits : ∀ digits, .placeholder digits ∈ segments → Text.toNat digits + offset < 2 ^ 64) :
    shiftFrom offset (endsInName before) (segments.flatMap text) = some (segments.flatMap (shifted offset)) := by
  induction segments generalizing before with
  | nil => exact Placeholder.shiftFromNil offset _
  | cons s segments ih =>
    obtain ⟨proper, begun, ended, later⟩ := laid
    have here : ∀ digits, s = .placeholder digits → Text.toNat digits + offset < 2 ^ 64 :=
      fun digits same => fits digits (same ▸ List.mem_cons_self)
    have others := ih later fun digits member => fits digits (List.mem_cons_of_mem _ member)
    rw [List.flatMap_cons, List.flatMap_cons, shiftFromSegment proper begun ended here, others, Placeholder.putSome]

theorem shiftSegments {segments : List Segment} (laid : Laid [] segments) (positive : 1 ≤ offset)
    (fits : ∀ digits, .placeholder digits ∈ segments → Text.toNat digits + offset < 2 ^ 64) :
    shift offset (segments.flatMap text) = some (segments.flatMap (shifted offset)) := by
  rw [Placeholder.shiftAsFrom (Nat.ne_of_gt positive)]
  exact (shiftFromSegments laid fits :)

theorem everySegmentShifted :
    let segments : List Segment :=
      [.plain "é IN (".toList, .placeholder "1".toList, .plain ",".toList, .placeholder "10".toList,
        .plain ") AND n = ".toList, .literal "it's $1".toList, .literal "$$".toList, .plain " OR b = ".toList,
        .dollar "t".toList " $2 ' $$ ".toList, .plain " OR ".toList, .placeholder "007".toList]
    Laid [] segments ∧
      segments.flatMap text = "é IN ($1,$10) AND n = 'it''s $1''$$' OR b = $t$ $2 ' $$ $t$ OR $007".toList ∧
      shift 90 (segments.flatMap text) =
        some "é IN ($91,$100) AND n = 'it''s $1''$$' OR b = $t$ $2 ' $$ $t$ OR $97".toList := by
  intro segments
  have laid : Laid [] segments := by decide
  have fits : ∀ digits, .placeholder digits ∈ segments → Text.toNat digits + 90 < 2 ^ 64 := by
    intro digits member
    simp [segments] at member
    rcases member with rfl | rfl | rfl <;> decide
  exact ⟨laid, by decide +kernel, (shiftSegments laid (by decide) fits).trans (by decide +kernel)⟩

end Segment
end TableGateway
