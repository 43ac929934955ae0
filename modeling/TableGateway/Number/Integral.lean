import TableGateway.Text

/-! Signed whole numbers in decimal text, read into a fixed range. The characters are taken from left
to right and the first fault met decides; a number that grows out of range is refused at the digit
that takes it out. -/
namespace TableGateway
namespace Integral

inductive Fault
  | empty
  | invalidDigit
  | tooLarge
  | tooSmall
  deriving DecidableEq, Repr

def Fault.message : Fault → Text
  | .empty => "cannot parse integer from empty string"
  | .invalidDigit => "invalid digit found in string"
  | .tooLarge => "number too large to fit in target type"
  | .tooSmall => "number too small to fit in target type"

structure Range where
  low : Int
  high : Int
  deriving DecidableEq, Repr

namespace Range

def signed (width : Nat) : Range := ⟨-2 ^ (width - 1), 2 ^ (width - 1) - 1⟩

def unsigned (width : Nat) : Range := ⟨0, 2 ^ width - 1⟩

def check (range : Range) (n : Int) : Except Fault Int :=
  if range.high < n then .error .tooLarge
  else if n < range.low then .error .tooSmall
  else .ok n

end Range

def readUp (range : Range) (n : Int) : Text → Except Fault Int
  | [] => .ok n
  | c :: rest =>
    if !c.isDigit then .error .invalidDigit
    else if range.high < n * 10 + Text.digitValue c then .error .tooLarge
    else readUp range (n * 10 + Text.digitValue c) rest

def readDown (range : Range) (n : Int) : Text → Except Fault Int
  | [] => .ok n
  | c :: rest =>
    if !c.isDigit then .error .invalidDigit
    else if n * 10 - Text.digitValue c < range.low then .error .tooSmall
    else readDown range (n * 10 - Text.digitValue c) rest

def read (range : Range) : Text → Except Fault Int
  | [] => .error .empty
  | ['+'] => .error .invalidDigit
  | ['-'] => .error .invalidDigit
  | '+' :: digits => readUp range 0 digits
  | '-' :: digits =>
    if range.low < 0 then readDown range 0 digits else .error .invalidDigit
  | digits => readUp range 0 digits

end Integral
end TableGateway
