import TableGateway.Number.Shortest
import TableGateway.Text.Blank

/-! Decimal text of binary numbers. Printing takes the shortest digits that read back and lays them out
as a style says; reading rounds the exact decimal value once. -/
namespace TableGateway

structure FloatStyle where
  positional : Int → Bool
  wholeEnd : Text
  tie : Tie

namespace FloatStyle

def plain : FloatStyle := ⟨fun _ => true, [], .up⟩

def document : FloatStyle := ⟨fun e => -5 ≤ e ∧ e ≤ 15, ".0", .even⟩

def leading (x : Scientific) : Int := (Text.ofNat x.digits).length + x.exponent - 1

def layout (style : FloatStyle) (x : Scientific) : Text :=
  let digits := Text.ofNat x.digits
  let e := leading x
  if style.positional e then
    if 0 ≤ x.exponent then digits ++ List.replicate x.exponent.toNat '0' ++ style.wholeEnd
    else if 0 ≤ e then digits.take (e.toNat + 1) ++ '.' :: digits.drop (e.toNat + 1)
    else "0." ++ List.replicate (-e - 1).toNat '0' ++ digits
  else
    let fraction := digits.drop 1
    digits.take 1 ++ (if fraction.isEmpty then [] else '.' :: fraction) ++
      'e' :: (if 0 ≤ e then ['+'] else []) ++ Text.ofInt e

def print {f : BinaryFormat} (style : FloatStyle) (x : Binary f) : Text :=
  let sign (negative : Bool) : Text := if negative then ['-'] else []
  match x.reading with
  | .nan _ _ => "NaN"
  | .infinite negative => sign negative ++ "inf"
  | .finite negative 0 _ => sign negative ++ '0' :: style.wholeEnd
  | .finite negative m q => sign negative ++ style.layout (Shortest.digits f style.tie m q)

end FloatStyle

namespace FloatText

inductive Fault
  | empty
  | invalid
  deriving DecidableEq, Repr

def Fault.message : Fault → Text
  | .empty => "cannot parse float from empty string"
  | .invalid => "invalid float literal"

def exponent? (t : Text) : Option Int :=
  let digits (ds : Text) : Option Nat :=
    if ds.isEmpty || !ds.all Char.isDigit then none else some (Text.toNat ds)
  match t with
  | '+' :: ds => (digits ds).map Int.ofNat
  | '-' :: ds => (digits ds).map fun n => -(n : Int)
  | ds => (digits ds).map Int.ofNat

def scientific? (t : Text) : Option Scientific := do
  let (whole, rest) := Text.spanDigits t
  let (fraction, rest) := match rest with
    | '.' :: r => Text.spanDigits r
    | r => ([], r)
  if whole.isEmpty ∧ fraction.isEmpty then none
  else
    let digits := Text.toNat (whole ++ fraction)
    match rest with
    | [] => some ⟨digits, -(fraction.length : Int)⟩
    | c :: r =>
      if c = 'e' ∨ c = 'E' then
        let e ← exponent? r
        some ⟨digits, e - fraction.length⟩
      else none

def nearest (f : BinaryFormat) (negative : Bool) (x : Scientific) : Binary f :=
  if x.digits = 0 then Binary.ofPattern f negative 0
  else if 400 < FloatStyle.leading x then Binary.infinite f negative
  else if FloatStyle.leading x < -400 then Binary.ofPattern f negative 0
  else Binary.ofRatio f negative (x.digits * 10 ^ x.exponent.toNat) (10 ^ (-x.exponent).toNat)

def magnitude? (f : BinaryFormat) (negative : Bool) (t : Text) : Option (Binary f) :=
  let word := Text.lower t
  if word = "nan".toList then some (Binary.quiet f negative 0)
  else if word = "inf".toList ∨ word = "infinity".toList then some (Binary.infinite f negative)
  else (scientific? t).map (nearest f negative)

def read (f : BinaryFormat) (t : Text) : Except Fault (Binary f) :=
  match t with
  | [] => .error .empty
  | '-' :: rest => (magnitude? f true rest).elim (.error .invalid) .ok
  | '+' :: rest => (magnitude? f false rest).elim (.error .invalid) .ok
  | t => (magnitude? f false t).elim (.error .invalid) .ok

end FloatText
end TableGateway
