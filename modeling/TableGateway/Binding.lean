import TableGateway.ArrayWire
import TableGateway.Calendar.Format
import TableGateway.DataType
import TableGateway.Decimal.Binary
import TableGateway.Decimal.Reader
import TableGateway.Decimal.Wire
import TableGateway.Json.Printer
import TableGateway.Json.Reader
import TableGateway.Number.Integral
import TableGateway.Uuid
import TableGateway.Value

/-! Values as bytes for a parameter of a given type. A value takes the form that the type asks for: text
is read as what it should be, and a whole float may stand for an integer. -/
namespace TableGateway

inductive BindFault
  | mismatch (what type : Text)
  | parsedInteger (fault : Integral.Fault)
  | parsedFloat (fault : FloatText.Fault)
  | range (fault : Integral.Fault)
  | date
  | uuid
  | decimal
  deriving DecidableEq, Repr

def BindFault.message? : BindFault → Option Text
  | .mismatch what type => some ("cannot bind " ++ what ++ " to parameter of type " ++ type)
  | .parsedInteger fault => some fault.message
  | .parsedFloat fault => some fault.message
  | .range fault => some fault.message
  | .date | .uuid | .decimal => none

namespace Binding

abbrev Result := Except BindFault (Option Bytes)

def sent (bs : Bytes) : Result := .ok (some bs)

def sendOr {α : Type} (x : Option α) (fault : BindFault) (send : α → Bytes) : Result :=
  match x with
  | some a => sent (send a)
  | none => .error fault

def document (s : Scalar) (j : Json) : Bytes :=
  (if s = .jsonb then [1] else []) ++ Bytes.ofText j.print

def boolBytes (b : Bool) : Bytes := [if b then 1 else 0]

def integral? : Scalar → Option (Nat × Integral.Range)
  | .int2 => some (2, .signed 16)
  | .int4 => some (4, .signed 32)
  | .int8 => some (8, .signed 64)
  | .oid => some (4, .unsigned 32)
  | _ => none

def decimalBytes (d : Decimal) : Bytes := (Numeric.ofDecimal d).toBytes

def ofBool (b : Bool) (s : Scalar) : Result :=
  match s with
  | .bool => sent (boolBytes b)
  | .json | .jsonb => sent (document s (.bool b))
  | s =>
    if DataType.isText s then sent (Bytes.ofText (Json.print (.bool b)))
    else .error (.mismatch "a boolean" s.entry.1)

def ofInt (n : Int) (s : Scalar) : Result :=
  match s, integral? s with
  | _, some (width, range) =>
    match range.check n with
    | .ok n => sent (Bytes.ofInt width n)
    | .error fault => .error (.range fault)
  | .float4, _ => sent (Binary.ofInt .single n).toBytes
  | .float8, _ => sent (Binary.ofInt .double n).toBytes
  | .numeric, _ => sendOr (Decimal.ofInt? n) .decimal decimalBytes
  | .json, _ => sent (document s (.ofInt n))
  | .jsonb, _ => sent (document s (.ofInt n))
  | s, _ =>
    if DataType.isText s then sent (Bytes.ofText (Text.ofInt n))
    else .error (.mismatch "an integer" s.entry.1)

def wholeNumber? (x : Binary64) : Option Int :=
  x.whole?.filter fun n => -2 ^ 63 ≤ n ∧ n < 2 ^ 63

def ofFloat (x : Binary64) (s : Scalar) : Result :=
  match s, integral? s with
  | s, some _ =>
    match wholeNumber? x with
    | some n => ofInt n s
    | none => .error (.mismatch ("non-integral float " ++ FloatStyle.plain.print x) s.entry.1)
  | .float4, _ => sent (x.convert .single).toBytes
  | .float8, _ => sent x.toBytes
  | .numeric, _ => sendOr (Decimal.ofBinary? x) .decimal decimalBytes
  | .json, _ => sent (document s (.ofFloat x))
  | .jsonb, _ => sent (document s (.ofFloat x))
  | s, _ =>
    if DataType.isText s then sent (Bytes.ofText (FloatStyle.plain.print x))
    else .error (.mismatch "a float" s.entry.1)

def readBool? (t : Text) : Option Bool :=
  let word := Text.lower (Text.trim t)
  if ["true", "t", "yes", "y", "on", "1"].any (·.toList = word) then some true
  else if ["false", "f", "no", "n", "off", "0"].any (·.toList = word) then some false
  else none

def textDocument (t : Text) : Json :=
  match Json.read t with
  | .ok j => j
  | .error _ => .string t

def readInteger (width : Nat) (t : Text) : Result :=
  match Integral.read (.signed (8 * width)) (Text.trim t) with
  | .ok n => sent (Bytes.ofInt width n)
  | .error fault => .error (.parsedInteger fault)

def readFloat (f : BinaryFormat) (t : Text) : Result :=
  match FloatText.read f (Text.trim t) with
  | .ok x => sent x.toBytes
  | .error fault => .error (.parsedFloat fault)

def ofText (t : Text) (s : Scalar) : Result :=
  let quoted : BindFault := .mismatch ('\'' :: t ++ ['\'']) s.entry.1
  match s with
  | .int2 => readInteger 2 t
  | .int4 => readInteger 4 t
  | .int8 => readInteger 8 t
  | .float4 => readFloat .single t
  | .float8 => readFloat .double t
  | .numeric => sendOr (Decimal.read? (Text.trim t)) .decimal decimalBytes
  | .bool => sendOr (readBool? t) quoted boolBytes
  | .uuid => sendOr (Uuid.read? (Text.trim t)) .uuid Uuid.octets
  | .timestamptz => sendOr (Stamp.readUniversal? t) quoted fun s => Bytes.ofInt 8 s.toMicros
  | .timestamp => sendOr (Stamp.readWall? t) quoted fun s => Bytes.ofInt 8 s.toMicros
  | .date => sendOr (Date.read? (Text.trim t)) .date fun d => Bytes.ofInt 4 d.toDay
  | .json | .jsonb => sent (document s (textDocument t))
  | s => if DataType.isText s then sent (Bytes.ofText t) else .error (.mismatch "text" s.entry.1)

def label (name : Text) (t : Text) : Bytes :=
  (if ["ltree", "lquery", "ltxtquery"].any (·.toList = name) then [1] else []) ++ Bytes.ofText t

def ofDocument (j : Json) (s : Scalar) : Result :=
  match s with
  | .json | .jsonb => sent (document s j)
  | s =>
    if DataType.isText s then sent (Bytes.ofText j.print)
    else .error (.mismatch "a JSON document" s.entry.1)

def scalar (v : Value) (s : Scalar) : Result :=
  match v with
  | .null => .ok none
  | .bool b => ofBool b s
  | .int n => ofInt n.toInt s
  | .float x => ofFloat x s
  | .text t => ofText t s
  | .json (.array items) => ofDocument (.array items) s
  | .json (.object fields) => ofDocument (.object fields) s
  | .json j =>
    if s = .json ∨ s = .jsonb then sent (document s j)
    else
      match Value.ofJson j with
      | .bool b => ofBool b s
      | .int n => ofInt n.toInt s
      | .float x => ofFloat x s
      | .text t => ofText t s
      | _ => .ok none

def describe : Value → Text
  | .bool _ => "a boolean"
  | .int _ => "an integer"
  | .float _ => "a float"
  | .text _ => "text"
  | _ => "a JSON document"

def plain : Value → Value
  | .json j => Value.ofJson j
  | v => v

def bind (v : Value) : DataType → Result
  | .scalar s => scalar v s
  | .array name _ lower element =>
    match plain v with
    | .null => .ok none
    | .json (.array items) => do
      let elements ← items.mapM fun item => bind (Value.ofJson item) element
      sent (ArrayWire.encode element.number lower elements)
    | v => .error (.mismatch (describe v) name)
  | .enumeration name _ =>
    match plain v with
    | .null => .ok none
    | .text t => sent (label name t)
    | v => .error (.mismatch (describe v) name)
  | .other name _ =>
    match plain v with
    | .null => .ok none
    | v => .error (.mismatch (describe v) name)

end Binding
end TableGateway
