import TableGateway.Bytes
import TableGateway.Number.Rounding

/-! Binary floating-point numbers as bit patterns: a sign bit, the exponent and the fraction. A finite
pattern stands for a significand times a power of two; arithmetic takes exact ratios and rounds them
to the nearest pattern, a tie to the even one. -/
namespace TableGateway

structure BinaryFormat where
  exponentWidth : Nat
  fractionWidth : Nat
  deriving DecidableEq, Repr

namespace BinaryFormat

def single : BinaryFormat := ⟨8, 23⟩

def double : BinaryFormat := ⟨11, 52⟩

def width (f : BinaryFormat) : Nat := 1 + f.exponentWidth + f.fractionWidth

def least (f : BinaryFormat) : Int := 2 - 2 ^ (f.exponentWidth - 1) - f.fractionWidth

def infinity (f : BinaryFormat) : Nat := (2 ^ f.exponentWidth - 1) * 2 ^ f.fractionWidth

def signBit (f : BinaryFormat) : Nat := 2 ^ (f.exponentWidth + f.fractionWidth)

end BinaryFormat

def binaryRatio (m : Nat) (q : Int) : Nat × Nat := (m * 2 ^ q.toNat, 2 ^ (-q).toNat)

namespace BinaryFormat

def nearest (f : BinaryFormat) (num den : Nat) : Nat :=
  if num = 0 then 0
  else
    let guess := max f.least ((num.log2 : Int) - den.log2 - f.fractionWidth)
    let scaled (q : Int) : Nat × Nat := (num * 2 ^ (-q).toNat, den * 2 ^ q.toNat)
    let floor := (scaled guess).1 / (scaled guess).2
    let q := if floor < 2 ^ f.fractionWidth ∧ f.least < guess then guess - 1 else guess
    let rounded := roundDiv .even (scaled q).1 (scaled q).2
    min f.infinity ((q - f.least).toNat * 2 ^ f.fractionWidth + rounded)

end BinaryFormat

structure Binary (f : BinaryFormat) where
  bits : BitVec f.width
  deriving DecidableEq, Repr

abbrev Binary32 := Binary .single

abbrev Binary64 := Binary .double

inductive Reading
  | nan (negative : Bool) (fraction : Nat)
  | infinite (negative : Bool)
  | finite (negative : Bool) (significand : Nat) (exponent : Int)
  deriving DecidableEq, Repr

namespace Binary

variable {f : BinaryFormat}

def ofPattern (f : BinaryFormat) (negative : Bool) (pattern : Nat) : Binary f :=
  ⟨BitVec.ofNat _ (pattern + if negative then f.signBit else 0)⟩

def negative (x : Binary f) : Bool := f.signBit ≤ x.bits.toNat

def pattern (x : Binary f) : Nat := x.bits.toNat % f.signBit

def reading (x : Binary f) : Reading :=
  let exponent := x.pattern / 2 ^ f.fractionWidth
  let fraction := x.pattern % 2 ^ f.fractionWidth
  if x.pattern = f.infinity then .infinite x.negative
  else if f.infinity < x.pattern then .nan x.negative fraction
  else if exponent = 0 then .finite x.negative fraction f.least
  else .finite x.negative (2 ^ f.fractionWidth + fraction) (f.least + exponent - 1)

def isFinite (x : Binary f) : Bool := x.pattern < f.infinity

def isNaN (x : Binary f) : Bool := f.infinity < x.pattern

def infinite (f : BinaryFormat) (negative : Bool) : Binary f := ofPattern f negative f.infinity

def quiet (f : BinaryFormat) (negative : Bool) (fraction : Nat) : Binary f :=
  ofPattern f negative (f.infinity + 2 ^ (f.fractionWidth - 1) + fraction % 2 ^ (f.fractionWidth - 1))

def ofRatio (f : BinaryFormat) (negative : Bool) (num den : Nat) : Binary f :=
  ofPattern f negative (f.nearest num den)

def ofInt (f : BinaryFormat) (n : Int) : Binary f := ofRatio f (n < 0) n.natAbs 1

def convert (g : BinaryFormat) (x : Binary f) : Binary g :=
  match x.reading with
  | .nan negative fraction =>
    quiet g negative
      (fraction * 2 ^ (g.fractionWidth - f.fractionWidth) / 2 ^ (f.fractionWidth - g.fractionWidth))
  | .infinite negative => infinite g negative
  | .finite negative m q => ofRatio g negative (binaryRatio m q).1 (binaryRatio m q).2

def whole? (x : Binary f) : Option Int :=
  match x.reading with
  | .finite negative m q =>
    let (num, den) := binaryRatio m q
    if num % den = 0 then some (if negative then -(num / den : Nat) else (num / den : Nat)) else none
  | _ => none

def toBytes (x : Binary f) : Bytes := Bytes.ofNat (f.width / 8) x.bits.toNat

def ofBytes? (f : BinaryFormat) (bs : Bytes) : Option (Binary f) :=
  if bs.length = f.width / 8 then some ⟨BitVec.ofNat _ (Bytes.toNat bs)⟩ else none

end Binary
end TableGateway
