import TableGateway.Json
import TableGateway.Json.Fault
import TableGateway.Text.Hex

/-! Reading JSON text. Every step takes a prefix of the text and returns the rest, or the first fault.
At most 127 arrays and objects may be open at once. A number keeps as many leading digits as fit in 64
bits: whole digits after those count as powers of ten, places after those are not looked at. -/
namespace TableGateway
namespace Json

namespace Reader

def isSpace (c : Char) : Bool := c = ' ' || c = '\n' || c = '\t' || c = '\r'

def skip (t : Text) : Text := t.dropWhile isSpace

def literal (value : Json) : (word : Text) → Text → Except Fault (Json × Text)
  | [], rest => .ok (value, rest)
  | _ :: _, [] => .error (.before .endInValue [])
  | w :: word, c :: rest =>
    if c = w then literal value word rest else .error (.atHead .expectedLiteral (c :: rest))

def unit (t : Text) : Except Fault (Nat × Text) :=
  if Text.bytes (t.take 4) < 4 then .error (.before .endInString [])
  else
    match (Hex.toBytes? (t.take 4)), t.drop 4 with
    | some [high, low], rest => .ok (256 * high.toNat + low.toNat, rest)
    | _, _ => .error ⟨.invalidEscape, Text.bytes t - 4⟩

def isLow (n : Nat) : Bool := 0xDC00 ≤ n && n ≤ 0xDFFF

def isHigh (n : Nat) : Bool := 0xD800 ≤ n && n ≤ 0xDBFF

def surrogate (high : Nat) : Text → Except Fault (Char × Text)
  | [] => .error (.before .endInString [])
  | '\\' :: [] => .error (.before .endInString [])
  | '\\' :: 'u' :: rest => do
    let (low, rest) ← unit rest
    if isLow low then .ok (Char.ofNat (0x10000 + (high - 0xD800) * 0x400 + (low - 0xDC00)), rest)
    else .error (.before .loneSurrogate rest)
  | '\\' :: rest => .error (.atHead .missingSurrogate rest)
  | rest => .error (.atHead .missingSurrogate rest)

def escaped : Text → Except Fault (Char × Text)
  | [] => .error (.before .endInString [])
  | 'u' :: rest => do
    let (n, rest) ← unit rest
    if isLow n then .error (.before .loneSurrogate rest)
    else if isHigh n then surrogate n rest
    else .ok (Char.ofNat n, rest)
  | c :: rest =>
    match c with
    | '"' => .ok ('"', rest)
    | '\\' => .ok ('\\', rest)
    | '/' => .ok ('/', rest)
    | 'b' => .ok ('\x08', rest)
    | 'f' => .ok ('\x0c', rest)
    | 'n' => .ok ('\n', rest)
    | 'r' => .ok ('\r', rest)
    | 't' => .ok ('\t', rest)
    | c => .error (.atHead .invalidEscape (c :: rest))

def string : (fuel : Nat) → Text → Except Fault (Text × Text)
  | _, [] => .error (.before .endInString [])
  | 0, rest => .error (.before .endInString rest)
  | fuel + 1, c :: rest =>
    if c = '"' then .ok ([], rest)
    else if c = '\\' then do
      let (c, rest) ← escaped rest
      let (tail, rest) ← string fuel rest
      .ok (c :: tail, rest)
    else if c < ' ' then .error (.atHead .controlCharacter (c :: rest))
    else do
      let (tail, rest) ← string fuel rest
      .ok (c :: tail, rest)

def absorb (n : Nat) : Text → Nat × Nat
  | [] => (n, 0)
  | c :: rest =>
    let next := 10 * n + Text.digitValue c
    if next < 2 ^ 64 then absorb next rest else (n, rest.length + 1)

def rounded (num den : Nat) : Nat × Nat :=
  match (Binary.ofRatio .double false num den).reading with
  | .finite _ m q => binaryRatio m q
  | _ => (0, 1)

/-- The significand and the power of ten are rounded before they are multiplied or divided. Powers above
308 are out of range, and as a divisor are taken in two steps. -/
def scaled (significand : Nat) (exponent : Int) : Option (Nat × Nat) :=
  let start := rounded significand 1
  let times (e : Nat) : Nat × Nat := (start.1 * (rounded (10 ^ e) 1).1, start.2 * (rounded (10 ^ e) 1).2)
  let quotient (x : Nat × Nat) (e : Nat) : Nat × Nat :=
    (x.1 * (rounded (10 ^ e) 1).2, x.2 * (rounded (10 ^ e) 1).1)
  if significand = 0 then some (0, 1)
  else if 308 < exponent then none
  else if 0 ≤ exponent then
    let (num, den) := times exponent.toNat
    if BinaryFormat.double.nearest num den < BinaryFormat.double.infinity then some (num, den) else none
  else if -308 ≤ exponent then some (quotient start (-exponent).toNat)
  else if -616 ≤ exponent then
    let (num, den) := quotient start 308
    some (quotient (rounded num den) (-exponent - 308).toNat)
  else some (0, 1)

def fraction (negative : Bool) (significand : Nat) (exponent : Int) (rest : Text) : Except Fault (Json × Text) :=
  match scaled significand exponent with
  | some (num, den) => .ok (.ofFloat (Binary.ofRatio _ negative num den), rest)
  | none => .error (.before .numberOutOfRange rest)

def exponentDigits (n : Nat) : Text → Except Text (Nat × Text)
  | [] => .ok (n, [])
  | c :: rest =>
    if c.isDigit then
      let next := 10 * n + Text.digitValue c
      if next < 2 ^ 31 then exponentDigits next rest else .error rest
    else .ok (n, c :: rest)

def exponent (negative : Bool) (significand : Nat) (point : Int) (t : Text) : Except Fault (Json × Text) :=
  let (down, digits) : Bool × Text := match t with
    | '+' :: r => (false, r)
    | '-' :: r => (true, r)
    | r => (false, r)
  match digits with
  | [] => .error (.before .endInValue [])
  | c :: _ =>
    if !c.isDigit then .error (.atHead .invalidNumber digits)
    else
      match exponentDigits 0 digits with
      | .ok (n, rest) => fraction negative significand (if down then point - n else point + n) rest
      | .error rest =>
        if significand ≠ 0 ∧ !down then .error (.before .numberOutOfRange rest)
        else fraction negative 0 0 (rest.dropWhile Char.isDigit)

def afterDigits (negative : Bool) (significand : Nat) (point : Int) : Text → Except Fault (Json × Text)
  | 'e' :: rest => exponent negative significand point rest
  | 'E' :: rest => exponent negative significand point rest
  | rest => fraction negative significand point rest

def number (negative : Bool) (t : Text) : Except Fault (Json × Text) :=
  let (digits, rest) := Text.spanDigits t
  match digits with
  | [] => match t with
    | [] => .error (.before .endInValue [])
    | t => .error (.atHead .invalidNumber t)
  | first :: others =>
    if first = '0' ∧ others ≠ [] then .error (.atHead .invalidNumber (others ++ rest))
    else
      let (significand, dropped) := absorb 0 digits
      let point : Int := dropped
      match rest with
      | '.' :: r =>
        let (places, r) := Text.spanDigits r
        match places, r with
        | [], [] => .error (.before .endInValue [])
        | [], r => .error (.atHead .invalidNumber r)
        | places, r =>
          let (significand, ignored) := absorb significand places
          afterDigits negative significand (point + ignored - places.length) r
      | rest =>
        let plain := match rest with
          | c :: _ => c ≠ 'e' ∧ c ≠ 'E' ∧ dropped = 0
          | [] => dropped = 0
        if !plain then afterDigits negative significand point rest
        else if !negative then .ok (.ofInt significand, rest)
        else if significand = 0 ∨ 2 ^ 63 < significand then fraction true significand 0 rest
        else .ok (.ofInt (-significand), rest)

mutual
def value : (fuel depth : Nat) → Text → Except Fault (Json × Text)
  | 0, _, t => .error (.before .endInValue t)
  | fuel + 1, depth, t =>
    match skip t with
    | [] => .error (.before .endInValue [])
    | c :: rest =>
      match c, depth with
      | 'n', _ => literal .null "ull" rest
      | 't', _ => literal (.bool true) "rue" rest
      | 'f', _ => literal (.bool false) "alse" rest
      | '"', _ => do
        let (s, rest) ← string rest.length rest
        .ok (.string s, rest)
      | '-', _ => number true rest
      | '[', 0 => .error (.atHead .tooDeep (c :: rest))
      | '[', depth + 1 =>
        match skip rest with
        | [] => .error (.before .endInArray [])
        | ']' :: rest => .ok (.array [], rest)
        | rest => do
          let (first, rest) ← value fuel depth rest
          let (others, rest) ← items fuel depth rest
          .ok (.array (first :: others), rest)
      | '\x7b', 0 => .error (.atHead .tooDeep (c :: rest))
      | '\x7b', depth + 1 =>
        match skip rest with
        | [] => .error (.before .endInObject [])
        | '\x7d' :: rest => .ok (.object [], rest)
        | '"' :: rest => do
          let (r, rest) ← fields fuel depth [] rest
          .ok (.object r, rest)
        | rest => .error (.atHead .nameNotString rest)
      | c, _ => if c.isDigit then number false (c :: rest) else .error (.atHead .expectedValue (c :: rest))

def items : (fuel depth : Nat) → Text → Except Fault (List Json × Text)
  | 0, _, t => .error (.before .endInArray t)
  | fuel + 1, depth, t =>
    match skip t with
    | [] => .error (.before .endInArray [])
    | ']' :: rest => .ok ([], rest)
    | ',' :: rest =>
      match skip rest with
      | [] => .error (.before .endInValue [])
      | ']' :: rest => .error (.atHead .trailingComma (']' :: rest))
      | rest => do
        let (item, rest) ← value fuel depth rest
        let (others, rest) ← items fuel depth rest
        .ok (item :: others, rest)
    | rest => .error (.atHead .expectedArrayEnd rest)

def fields : (fuel depth : Nat) → Record → Text → Except Fault (Record × Text)
  | 0, _, _, t => .error (.before .endInObject t)
  | fuel + 1, depth, r, t => do
    let (name, rest) ← string t.length t
    match skip rest with
    | [] => .error (.before .endInObject [])
    | ':' :: rest =>
      let (v, rest) ← value fuel depth rest
      let r := Record.put r name v
      match skip rest with
      | [] => .error (.before .endInObject [])
      | '\x7d' :: rest => .ok (r, rest)
      | ',' :: rest =>
        match skip rest with
        | [] => .error (.before .endInValue [])
        | '"' :: rest => fields fuel depth r rest
        | '\x7d' :: rest => .error (.atHead .trailingComma ('\x7d' :: rest))
        | rest => .error (.atHead .nameNotString rest)
      | rest => .error (.atHead .expectedObjectEnd rest)
    | rest => .error (.atHead .expectedColon rest)
end

end Reader

def read (t : Text) : Except Fault Json := do
  let (v, rest) ← Reader.value (t.length + 1) 127 t
  match Reader.skip rest with
  | [] => .ok v
  | rest => .error (.atHead .trailingCharacters rest)

end Json
end TableGateway
