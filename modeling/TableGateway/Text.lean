/-! Text as the list of its characters, the form in which every reader and printer of the library
works, and the decimal spelling of whole numbers. -/
namespace TableGateway

abbrev Text := List Char

instance : Coe String Text := ⟨String.toList⟩

-- One meaning of `^` for every module, whatever else it imports.
@[default_instance 20000]
instance (priority := high) power {α : Type} [NatPow α] : Pow α Nat := instPowNat

namespace Text

def ofNat (n : Nat) : Text := Nat.toDigits 10 n

def ofInt : Int → Text
  | .ofNat n => ofNat n
  | .negSucc n => '-' :: ofNat (n + 1)

def padded (width n : Nat) : Text :=
  List.replicate (width - (ofNat n).length) '0' ++ ofNat n

def digitValue (c : Char) : Nat := c.toNat - '0'.toNat

def toNat (digits : Text) : Nat := Nat.ofDigitChars 10 digits 0

theorem toNatOfNat (n : Nat) : toNat (ofNat n) = n := Nat.ofDigitChars_ten_toDigits

theorem ofNatDigits {n : Nat} {c : Char} (h : c ∈ ofNat n) : c.isDigit :=
  Nat.isDigit_of_mem_toDigits (b := 10) (by decide) (by decide) h

theorem ofNatNotEmpty (n : Nat) : ofNat n ≠ [] := Nat.toDigits_ne_nil

def spanDigits (t : Text) : Text × Text := (t.takeWhile Char.isDigit, t.dropWhile Char.isDigit)

def after? (mark t : Text) : Option Text :=
  if mark.isPrefixOf t then some (t.drop mark.length) else none

def splitLast? (mark : Text) : Text → Option (Text × Text)
  | [] => (after? mark []).map fun rest => ([], rest)
  | c :: t =>
    match splitLast? mark t with
    | some (before, rest) => some (c :: before, rest)
    | none => (after? mark (c :: t)).map fun rest => ([], rest)

def lower (t : Text) : Text := t.map Char.toLower

def listed (texts : List Text) : Text := [',', ' '].intercalate texts

def bytes (t : Text) : Nat := t.foldl (fun n c => n + c.utf8Size) 0

end Text
end TableGateway
