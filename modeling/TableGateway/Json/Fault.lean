import TableGateway.Number.Integral

/-! What is wrong with a JSON text, and where. The message of a failure that comes from elsewhere may end in
a place of the same form; it is understood as that place, and line 0 is no place at all. -/
namespace TableGateway
namespace Json

inductive Problem
  | endInArray
  | endInObject
  | endInString
  | endInValue
  | expectedColon
  | expectedArrayEnd
  | expectedObjectEnd
  | expectedLiteral
  | expectedValue
  | invalidEscape
  | invalidNumber
  | numberOutOfRange
  | controlCharacter
  | nameNotString
  | loneSurrogate
  | trailingComma
  | trailingCharacters
  | missingSurrogate
  | tooDeep
  deriving DecidableEq, Repr

def Problem.message : Problem → Text
  | .endInArray => "EOF while parsing a list"
  | .endInObject => "EOF while parsing an object"
  | .endInString => "EOF while parsing a string"
  | .endInValue => "EOF while parsing a value"
  | .expectedColon => "expected `:`"
  | .expectedArrayEnd => "expected `,` or `]`"
  | .expectedObjectEnd => "expected `,` or `\x7d`"
  | .expectedLiteral => "expected ident"
  | .expectedValue => "expected value"
  | .invalidEscape => "invalid escape"
  | .invalidNumber => "invalid number"
  | .numberOutOfRange => "number out of range"
  | .controlCharacter => "control character (\\u0000-\\u001F) found while parsing a string"
  | .nameNotString => "key must be a string"
  | .loneSurrogate => "lone leading surrogate in hex escape"
  | .trailingComma => "trailing comma"
  | .trailingCharacters => "trailing characters"
  | .missingSurrogate => "unexpected end of hex escape"
  | .tooDeep => "recursion limit exceeded"

/-- A problem and the number of bytes that were still unread when it was met. -/
structure Fault where
  problem : Problem
  left : Nat
  deriving DecidableEq, Repr

namespace Fault

def before (problem : Problem) (rest : Text) : Fault := ⟨problem, Text.bytes rest⟩

def atHead (problem : Problem) (rest : Text) : Fault := ⟨problem, Text.bytes rest - 1⟩

def place (line column : Nat) : (n : Nat) → Text → Nat × Nat
  | 0, _ => (line, column)
  | _, [] => (line, column)
  | n, c :: rest =>
    if c = '\n' then place (line + 1) 0 (n - 1) rest
    else if n ≤ c.utf8Size then (line, column + n)
    else place line (column + c.utf8Size) (n - c.utf8Size) rest

def located (message : Text) (line column : Nat) : Text :=
  message ++ " at line " ++ Text.ofNat line ++ " column " ++ Text.ofNat column

def message (source : Text) (fault : Fault) : Text :=
  let (line, column) := place 1 0 (Text.bytes source - fault.left) source
  located fault.problem.message line column

def number? (digits : Text) : Option Nat :=
  if digits.all Char.isDigit then ((Integral.read (.unsigned 64) digits).toOption).map Int.toNat else none

def place? (t : Text) : Option (Nat × Nat) := do
  let (line, rest) := Text.spanDigits t
  let column ← Text.after? " column " rest
  some (← number? line, ← number? column)

def restated (message : Text) : Text :=
  match Text.splitLast? " at line " message with
  | none => message
  | some (body, rest) =>
    match place? rest with
    | none => message
    | some (0, _) => body
    | some (line, column) => located body line column

end Fault
end Json
end TableGateway
